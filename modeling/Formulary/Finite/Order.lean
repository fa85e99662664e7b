/-!
# Orders read off a key

An order that compares a key of each value is lawful where the key's order is, and it makes two
values equal exactly when it makes their keys equal.
-/

namespace Formulary
open Std

theorem eq_of_compareOn {α β : Type} [Ord β] [LawfulEqOrd β] {key : α → β} {a b : α}
    (same : compareOn key a b = .eq) : key a = key b :=
  LawfulEqCmp.eq_of_compare (show compare (key a) (key b) = .eq from same)

end Formulary
