/-!
# Computations that may fail

When a sequence of steps succeeds, and with what; and whose error it has if it fails.
-/

namespace Formulary

variable {α β ε : Type}

theorem bind_eq_ok {made : Except ε α} {next : α → Except ε β} {b : β} :
    made >>= next = .ok b ↔ ∃ a, made = .ok a ∧ next a = .ok b := by
  cases made <;> simp [bind, Except.bind]

theorem return_eq_ok {made : Except ε α} {f : α → β} {b : β} :
    (do return f (← made)) = Except.ok b ↔ ∃ a, made = .ok a ∧ f a = b := by
  cases made <;> simp [bind, Except.bind, pure, Except.pure]

theorem return_eq_error {made : Except ε α} {f : α → β} {error : ε} :
    (do return f (← made)) = Except.error error ↔ made = .error error := by
  cases made <;> simp [bind, Except.bind, pure, Except.pure]

theorem map_eq_ok {made : Except ε α} {f : α → β} {b : β} :
    f <$> made = .ok b ↔ ∃ a, made = .ok a ∧ f a = b := by
  cases made <;> simp [Functor.map, Except.map]

/-! ## Traversals -/

theorem mapM_eq_ok {f : α → Except ε β} {inputs : List α} {outputs : List β}
    (made : inputs.mapM f = .ok outputs) :
    (∀ a ∈ inputs, ∃ b, f a = .ok b) ∧ ∀ b, b ∈ outputs ↔ ∃ a ∈ inputs, f a = .ok b := by
  induction inputs generalizing outputs with
  | nil =>
    obtain rfl : outputs = [] := (Except.ok.inj made).symm
    simp
  | cons a rest ih =>
    rw [List.mapM_cons] at made
    cases first : f a with
    | error e => simp [first, bind, Except.bind] at made
    | ok b =>
      cases others : rest.mapM f with
      | error e => simp [first, others, bind, Except.bind] at made
      | ok bs =>
        obtain rfl : outputs = b :: bs := by
          simpa [first, others, bind, Except.bind, pure, Except.pure, eq_comm] using made
        obtain ⟨each, members⟩ := ih others
        refine ⟨List.forall_mem_cons.mpr ⟨⟨b, first⟩, each⟩, fun c => ?_⟩
        simp [members, first, eq_comm]

theorem exists_mapM_eq_ok {f : α → Except ε β} {inputs : List α}
    (each : ∀ a ∈ inputs, ∃ b, f a = .ok b) : ∃ outputs, inputs.mapM f = .ok outputs := by
  induction inputs with
  | nil => exact ⟨[], rfl⟩
  | cons a rest ih =>
    obtain ⟨⟨b, first⟩, others⟩ := List.forall_mem_cons.mp each
    obtain ⟨bs, rest⟩ := ih others
    refine ⟨b :: bs, ?_⟩
    rw [List.mapM_cons, first, rest]
    rfl

/-- A traversal fails with the error of one of its steps. -/
theorem exists_of_mapM_eq_error {f : α → Except ε β} {inputs : List α} {error : ε}
    (failed : inputs.mapM f = .error error) : ∃ a ∈ inputs, f a = .error error := by
  induction inputs with
  | nil => exact absurd failed nofun
  | cons a rest ih =>
    rw [List.mapM_cons] at failed
    cases first : f a with
    | error other =>
      obtain rfl : other = error := by simpa [first, bind, Except.bind] using failed
      exact ⟨a, List.mem_cons_self, first⟩
    | ok b =>
      cases others : rest.mapM f with
      | error other =>
        obtain rfl : other = error := by simpa [first, others, bind, Except.bind] using failed
        obtain ⟨c, member, here⟩ := ih others
        exact ⟨c, List.mem_cons_of_mem _ member, here⟩
      | ok bs => simp [first, others, bind, Except.bind, pure, Except.pure] at failed

/-- What holds of all results holds of the result for an optional input. -/
theorem forall_mem_of_mapM_eq_some {f : α → Option β} {P : β → Prop} {input : Option α}
    {output : Option β} (each : ∀ {a b}, f a = some b → P b) (made : input.mapM f = some output) :
    ∀ b ∈ output, P b := by
  rcases input with _ | a
  · cases made
    exact fun b none => nomatch none
  · obtain ⟨b, step, made⟩ := Option.map_eq_some_iff.mp made
    rintro _ there
    cases made
    cases there
    exact each step

end Formulary
