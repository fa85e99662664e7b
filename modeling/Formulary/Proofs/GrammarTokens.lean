import Formulary.Iri
import Formulary.Turtle.Terminal

/-!
# Tokens of the grammars

Turtle and N-Triples as their grammars have them, not as a particular reader of documents does: a
text is a run of tokens, each the longest that can stand there, with white space and comments
between them. A grammar has references, blank nodes, tags and datatype marks in common with the
other one; they differ in the letters of a label and in the tokens beyond these (`Lexicon`).

`Lexicon.Spells` says that a piece of text is read as certain tokens wherever white space follows
it. Pieces with white space between them spell their tokens one after the other (`Spells.join`).
-/

namespace Formulary.Grammar

inductive Token where
  /-- A reference in angle brackets. -/
  | reference (value : List Char)
  /-- The label of a namespace and what follows its colon, if anything does. -/
  | name (label member : List Char)
  | blank (label : List Char)
  | string (lexical : List Char)
  /-- A number with the datatype that its form gives it. -/
  | number (lexical : List Char) (datatype : String)
  /-- The word after an at sign: a language tag, or the word of a declaration. -/
  | sign (word : List Char)
  /-- The two signs before a datatype. -/
  | datatype
  | word (word : String)
  /-- Brackets with nothing between them. -/
  | anon
  | mark (c : Char)
deriving DecidableEq, Repr

/-! ## White space -/

theorem eq_of_isSpace {c : Char} (space : isSpace c) :
    c = ' ' ∨ c = '\t' ∨ c = '\n' ∨ c = '\r' := by
  simpa [isSpace, or_assoc] using space

theorem skip_of_visible {c : Char} {text : List Char} (visible : isSpace c = false)
    (noComment : c ≠ '#') : Terminal.skip (c :: text) = c :: text := by
  simp [Terminal.skip, Terminal.skipFrom, visible, noComment]

theorem length_skipFrom_le (inComment : Bool) (text : List Char) :
    (Terminal.skipFrom inComment text).length ≤ text.length := by
  fun_induction Terminal.skipFrom <;> simp only [List.length_cons, List.length_nil] at * <;> omega

/-- White space or the end of the text stands at the front. -/
def Ends (text : List Char) : Prop := ∀ c ∈ text.head?, isSpace c

theorem ends_cons {c : Char} {rest : List Char} (space : isSpace c) : Ends (c :: rest) :=
  fun _ same => Option.some.inj same ▸ space

theorem Ends.cases {text : List Char} (ends : Ends text) : text = [] ∨ ∃ rest,
    text = ' ' :: rest ∨ text = '\t' :: rest ∨ text = '\n' :: rest ∨ text = '\r' :: rest := by
  cases text with
  | nil => exact .inl rfl
  | cons c rest =>
    refine .inr ⟨rest, ?_⟩
    simpa only [List.cons.injEq, and_true] using eq_of_isSpace (ends c rfl)

/-- A run of characters that are not white space is what is taken of it and what follows. -/
theorem span_append {p : Char → Bool} {run rest : List Char} (inRun : run.all p) (ends : Ends rest)
    (noSpace : ∀ c, isSpace c → p c = false) :
    (run ++ rest).takeWhile p = run ∧ (run ++ rest).dropWhile p = rest := by
  rw [List.takeWhile_append_of_pos (List.all_eq_true.mp inRun),
    List.dropWhile_append_of_pos (List.all_eq_true.mp inRun)]
  cases rest with
  | nil => simp
  | cons c rest => simp [noSpace c (ends c rfl)]

/-! ## Labels -/

theorem isNameRest_eq_false {c : Char} (space : isSpace c) : isNameRest c = false := by
  rcases eq_of_isSpace space with rfl | rfl | rfl | rfl <;> decide

theorem isNameLetter_of_isAlpha {c : Char} (letter : c.isAlpha) : isNameLetter c := by
  simp only [isNameLetter, inRanges, List.any_cons, Bool.or_eq_true, Bool.and_eq_true,
    decide_eq_true_eq]
  rcases Bool.or_eq_true_iff.mp letter with upper | lower
  · exact .inl (of_decide_eq_true upper)
  · have range : (decide (97 ≤ c.val) && decide (c.val ≤ 122)) = true := lower
    simp only [Bool.and_eq_true, decide_eq_true_eq] at range
    exact .inr (.inl range)

/-- The longest run of characters of a kind with full stops between them, and the text after it. No
full stop ends the run. -/
def stopped (inside : Char → Bool) : List Char → List Char × List Char
  | [] => ([], [])
  | c :: rest =>
    let (run, after) := stopped inside rest
    if inside c || (c == '.' && !run.isEmpty) then (c :: run, after) else ([], c :: rest)

/-- Whether a text is such a run as a whole. -/
def isStopped (inside : Char → Bool) (run : List Char) : Bool :=
  (run.all fun c => inside c || c == '.') && run.getLast? != some '.'

theorem stopped_append {inside : Char → Bool} {run rest : List Char} (isRun : isStopped inside run)
    (ended : ∀ c ∈ rest.head?, inside c = false ∧ c ≠ '.') :
    stopped inside (run ++ rest) = (run, rest) := by
  induction run with
  | nil =>
    cases rest with
    | nil => rfl
    | cons c rest =>
      obtain ⟨outside, noStop⟩ := ended c rfl
      simp [stopped, outside, noStop]
  | cons c run ih =>
    simp only [isStopped, List.all_cons, Bool.and_eq_true, bne_iff_ne, ne_eq] at isRun ih
    obtain ⟨⟨here, inRun⟩, noStop⟩ := isRun
    have later : stopped inside (run ++ rest) = (run, rest) := by
      refine ih ⟨inRun, fun stop => noStop ?_⟩
      rw [List.getLast?_cons, stop]
      rfl
    have goesOn : inside c || (c == '.' && !run.isEmpty) := by
      -- A full stop at the end of the run is excluded.
      cases run with
      | nil => simpa using fun h : inside c = false => noStop (by simpa [h] using here)
      | cons d run => simpa using here
    rw [List.cons_append, stopped, later]
    simp [goesOn]

/-! ## Tokens in common -/

/-- Characters that stand for themselves between angle brackets. -/
def isReferenceChar (c : Char) : Bool :=
  0x20 < c.toNat && !"<>\"\x7b\x7d|^\x60\\".toList.contains c

/-- Whether a reference has a scheme, so that no base is needed to tell what it means. -/
def isAbsolute (reference : List Char) : Bool := (Iri.splitScheme reference).1.isSome

/-- A reference after its opening bracket, its code point escapes decoded. -/
def reference? (text : List Char) : Option (List Char × List Char) := do
  let (body, rest) ← cutAt? ['>'] text
  if !body.all fun c => isReferenceChar c || c == '\\' then none
  return (← Terminal.decode? (fun _ => none) body, rest)

theorem decode?_of_noEscape {simple : Char → Option Char} {text : List Char}
    (noEscape : ∀ c ∈ text, c ≠ '\\') : Terminal.decode? simple text = some text := by
  induction text with
  | nil => rfl
  | cons c text ih =>
    obtain ⟨here, later⟩ := List.forall_mem_cons.mp noEscape
    rw [Terminal.decode?, ih later]
    · rfl
    all_goals simp_all

/-- Decoded escapes make a text shorter; where it keeps its length it has none. -/
theorem decode?_shortens {text out : List Char}
    (decoded : Terminal.decode? (fun _ => none) text = some out) :
    out.length ≤ text.length ∧ (out.length = text.length → '\\' ∉ text) := by
  fun_induction Terminal.decode? (fun _ => none) text generalizing out with
  | case1 =>
    obtain rfl : [] = out := Option.some.inj decoded
    exact ⟨Nat.le_refl _, fun _ => List.not_mem_nil⟩
  | case2 | case3 =>
    rename_i ih
    obtain ⟨char, -, decoded⟩ := Option.bind_eq_some_iff.mp decoded
    obtain ⟨more, later, rfl⟩ := Option.map_eq_some_iff.mp decoded
    have shorter := (ih later).1
    simp only [List.length_cons]
    exact ⟨by omega, fun same => by omega⟩
  | case4 | case5 => simp at decoded
  | case6 c rest _ _ simple single ih =>
    obtain ⟨more, later, rfl⟩ := Option.map_eq_some_iff.mp decoded
    obtain ⟨shorter, plain⟩ := ih later
    simp only [List.length_cons, Nat.add_right_cancel_iff, Nat.add_le_add_iff_right, List.mem_cons,
      not_or]
    refine ⟨shorter, fun same => ⟨?_, plain same⟩⟩
    rintro rfl
    cases rest with
    | nil => exact single rfl rfl
    | cons d rest => exact simple d rest rfl rfl

/-- A text with a bracket after it is read as itself only if it may stand in a reference. -/
theorem plain_of_reference? {value rest after : List Char}
    (read : reference? (value ++ '>' :: rest) = some (value, after)) : value.all isReferenceChar := by
  obtain ⟨⟨body, tail⟩, cut, read⟩ := Option.bind_eq_some_iff.mp read
  obtain ⟨whole, noEnd⟩ := eq_of_cutAt? cut
  dsimp only at read
  split at read
  · cases read
  · next admitted =>
    obtain ⟨decoded, made, same⟩ := Option.bind_eq_some_iff.mp read
    obtain ⟨rfl, -⟩ := Prod.mk.inj (Option.some.inj same)
    obtain ⟨shorter, plain⟩ := decode?_shortens made
    -- What is cut off at the bracket is no longer than the value, and decoding does not make it longer.
    obtain rfl : decoded = body := by
      rcases List.append_eq_append_iff.mp whole with ⟨more, rfl, later⟩ | ⟨more, rfl, -⟩
      · cases more with
        | nil => simp
        | cons d more =>
          obtain rfl : '>' = d := (List.cons.inj later).1
          simp at noEnd
      · rw [List.length_append] at shorter
        simp [List.length_eq_zero_iff.mp (show more.length = 0 by omega)]
    refine List.all_eq_true.mpr fun c member => ?_
    have here : ∀ c ∈ decoded, isReferenceChar c = false → c = '\\' := by simpa using admitted
    cases legal : isReferenceChar c with
    | true => rfl
    | false => exact absurd (here c member legal ▸ member) (plain rfl)

/-- What the tokens of a grammar look like. -/
structure Lexicon where
  /-- The letters of the labels of blank nodes, none of them white space. -/
  isLetter : Char → Bool
  visible : ∀ c, isSpace c → isLetter c = false
  /-- Takes a token that the other grammar does not have, or not in this form, from the front of a
  text. -/
  other? : List Char → Option (Token × List Char)

namespace Lexicon

variable (l : Lexicon)

/-- Whether a character may start the label of a blank node. -/
def startsLabel (c : Char) : Bool := l.isLetter c || c.isDigit

/-- Whether a character may follow in the label of a blank node. -/
def inLabel (c : Char) : Bool := l.isLetter c || isNameRest c

/-- Whether a text is the label of a blank node. -/
def isLabel : List Char → Bool
  | [] => false
  | c :: rest => l.startsLabel c && isStopped l.inLabel rest

/-- The label of a blank node at the front of a text. -/
def label? : List Char → Option (List Char × List Char)
  | [] => none
  | c :: rest =>
    if l.startsLabel c then
      let (run, after) := stopped l.inLabel rest
      some (c :: run, after)
    else none

/-- The tokens in common. -/
def common? : List Char → Option (Token × List Char)
  | '<' :: rest => (reference? rest).map (Prod.map .reference id)
  | '_' :: ':' :: rest => (l.label? rest).map (Prod.map .blank id)
  | '@' :: rest =>
    if (Terminal.tag rest).1.isEmpty then none else some (Prod.map .sign id (Terminal.tag rest))
  | '^' :: '^' :: rest => some (.datatype, rest)
  | _ => none

/-- The token at the front of a text, and the text after it. -/
def token? (text : List Char) : Option (Token × List Char) := (l.common? text).or (l.other? text)

/-- The tokens of a text that starts with one. -/
def tokensFrom? : List Char → Option (List Token)
  | [] => some []
  | c :: rest =>
    match l.token? (c :: rest) with
    | none => none
    | some (t, after) =>
      -- The first character belongs to the token.
      if after.length ≤ rest.length then (tokensFrom? (Terminal.skip after)).map (t :: ·) else none
termination_by text => text.length
decreasing_by
  have := length_skipFrom_le false after
  simp only [Terminal.skip, List.length_cons]
  omega

/-- The tokens of a text. -/
def tokens? (text : List Char) : Option (List Token) := l.tokensFrom? (Terminal.skip text)

/-! ## Pieces of text -/

/-- A piece of text is read as the given tokens where white space or nothing follows it. -/
def Spells (piece : List Char) (tokens : List Token) : Prop :=
  ∀ rest, Ends rest → l.tokens? (piece ++ rest) = (l.tokens? rest).map (tokens ++ ·)

variable {l} {c : Char} {piece more rest : List Char} {t : Token} {tokens others : List Token}

@[simp] theorem tokens?_nil : l.tokens? [] = some [] := by
  rw [tokens?, Terminal.skip, Terminal.skipFrom, tokensFrom?]

theorem tokens?_space (space : isSpace c) : l.tokens? (c :: rest) = l.tokens? rest := by
  simp only [tokens?, Terminal.skip, Terminal.skipFrom, space, if_true]

/-- A token at the front of a text is its first token. -/
theorem tokens?_token {text : List Char} (visible : isSpace c = false) (noComment : c ≠ '#')
    (shorter : rest.length ≤ text.length) (taken : l.token? (c :: text) = some (t, rest)) :
    l.tokens? (c :: text) = (l.tokens? rest).map (t :: ·) := by
  rw [tokens?, skip_of_visible visible noComment, tokensFrom?, taken]
  exact if_pos shorter

/-- A text that starts with neither white space nor a comment starts with its first token. -/
theorem exists_token {text : List Char} (visible : isSpace c = false) (noComment : c ≠ '#')
    (read : l.tokens? (c :: text) = some tokens) :
    ∃ t rest more, l.token? (c :: text) = some (t, rest) ∧ tokens = t :: more := by
  rw [tokens?, skip_of_visible visible noComment, tokensFrom?] at read
  split at read
  · cases read
  · next t after taken =>
    split at read
    · obtain ⟨more, -, rfl⟩ := Option.map_eq_some_iff.mp read
      exact ⟨t, after, more, taken, rfl⟩
    · cases read

theorem spells_nil : l.Spells [] [] := fun rest _ => by simp

theorem Spells.space (spells : l.Spells piece tokens) (space : isSpace c) :
    l.Spells (c :: piece) tokens := fun rest ends => by
  rw [List.cons_append, tokens?_space space, spells rest ends]

theorem Spells.spaces (spells : l.Spells piece tokens) {gap : List Char} (space : gap.all isSpace) :
    l.Spells (gap ++ piece) tokens := by
  induction gap with
  | nil => exact spells
  | cons c gap ih =>
    obtain ⟨here, later⟩ := Bool.and_eq_true_iff.mp (List.all_cons.symm.trans space)
    exact (ih later).space here

/-- What white space keeps apart is read one after the other. -/
theorem Spells.join (first : l.Spells piece tokens) (second : l.Spells more others)
    (space : isSpace c) : l.Spells (piece ++ c :: more) (tokens ++ others) := fun rest ends => by
  rw [List.append_assoc, List.cons_append, first _ (ends_cons space), tokens?_space space,
    second rest ends]
  simp [Function.comp_def]

theorem spells_token (visible : isSpace c = false) (noComment : c ≠ '#')
    (taken : ∀ rest, Ends rest → l.token? (c :: (piece ++ rest)) = some (t, rest)) :
    l.Spells (c :: piece) [t] :=
  fun rest ends => tokens?_token visible noComment (by simp) (taken rest ends)

/-! ## Tokens in common -/

theorem token?_common {text : List Char} (taken : l.common? text = some (t, rest)) :
    l.token? text = some (t, rest) := by
  rw [token?, taken, Option.some_or]

/-- A reference ends with its closing bracket, whatever follows. -/
theorem token?_reference {value : List Char} (plain : value.all isReferenceChar) :
    l.token? ('<' :: (value ++ '>' :: rest)) = some (.reference value, rest) := by
  have noEscape : ∀ c ∈ value, c ≠ '\\' := by
    rintro _ member rfl
    exact absurd (List.all_eq_true.mp plain _ member) (by decide)
  have noEnd : '>' ∉ value := fun member =>
    absurd (List.all_eq_true.mp plain _ member) (by decide)
  have admitted : value.all (fun c => isReferenceChar c || c == '\\') = true :=
    List.all_eq_true.mpr fun c member => by rw [List.all_eq_true.mp plain c member, Bool.true_or]
  refine token?_common ?_
  rw [common?, reference?, cutAt?_append noEnd]
  simp only [Option.bind_eq_bind, Option.bind_some, admitted, decode?_of_noEscape noEscape]
  rfl

theorem spells_reference {value : List Char} (plain : value.all isReferenceChar) :
    l.Spells ('<' :: (value ++ ['>'])) [.reference value] :=
  spells_token rfl (by decide) fun rest _ => by
    rw [List.append_assoc, List.singleton_append, token?_reference plain]

theorem spells_blank {label : List Char} (isLabel : l.isLabel label) :
    l.Spells ('_' :: ':' :: label) [.blank label] := by
  refine spells_token rfl (by decide) fun rest ends => token?_common ?_
  cases label with
  | nil => cases isLabel
  | cons c label =>
    obtain ⟨starts, isRun⟩ := Bool.and_eq_true_iff.mp isLabel
    have apart : ∀ c ∈ rest.head?, l.inLabel c = false ∧ c ≠ '.' := fun c first => by
      have space := ends c first
      refine ⟨?_, ?_⟩
      · simp [inLabel, l.visible c space, isNameRest_eq_false space]
      · rintro rfl
        cases space
    simp [common?, label?, starts, stopped_append isRun apart]

/-- A tag is taken as far as letters, digits and hyphens go. -/
theorem spells_sign {word : List Char} (occupied : word ≠ [])
    (plain : word.all fun c => c.isAlphanum || c == '-') : l.Spells ('@' :: word) [.sign word] := by
  refine spells_token rfl (by decide) fun rest ends => token?_common ?_
  obtain ⟨taken, left⟩ := span_append plain ends fun c space => by
    rcases eq_of_isSpace space with rfl | rfl | rfl | rfl <;> decide
  rw [common?, Terminal.tag, taken, left]
  simp [occupied]

end Lexicon
end Formulary.Grammar
