import Runbook.Proofs.Text
import Runbook.Workflow.Need

/-!
# Needs and their texts

The texts of a need are a word that stands alone, or a word that takes an argument, then blanks,
then the argument in parentheses, with blanks around it (`Spells`). Reading accepts exactly these, with
blanks around them, and gives the need that they spell (`parse_eq_ok_iff`).

A need has several spellings and is printed in one of them, which is read as the same need
(`parse_display`).
-/

set_option autoImplicit false

namespace Runbook.Need

/-! ## 1. Arguments -/

/-- A character that an argument may have is an ASCII letter or digit, `_`, `-` or `.`. -/
theorem argumentChar_iff {c : Char} :
    argumentChar c = true ↔ c.isAlphanum = true ∨ c = '_' ∨ c = '-' ∨ c = '.' := by
  have letters : c.isAlphanum = ((decide ('A' ≤ c ∧ c ≤ 'Z') || ('a' ≤ c && c ≤ 'z')) ||
      ('0' ≤ c && c ≤ '9')) := rfl
  rw [letters]
  simp only [argumentChar, Bool.or_eq_true, Bool.and_eq_true, decide_eq_true_eq, beq_iff_eq,
    or_assoc]
  exact or_left_comm

theorem isBlank_of_argumentChar {c : Char} (h : argumentChar c = true) : isBlank c = false := by
  simp only [argumentChar, Bool.or_eq_true, Bool.and_eq_true, decide_eq_true_eq, Char.le_def,
    UInt32.le_iff_toNat_le, beq_iff_eq] at h
  have code : 48 ≤ c.toNat ∧ c.toNat ≤ 122 ∨ c = '-' ∨ c = '.' := by
    rcases h with ((((h | h) | h) | rfl) | rfl) | rfl
    · exact .inl ⟨Nat.le_trans (by decide) h.1, h.2⟩
    · exact .inl ⟨Nat.le_trans (by decide) h.1, Nat.le_trans h.2 (by decide)⟩
    · exact .inl ⟨h.1, Nat.le_trans h.2 (by decide)⟩
    · exact .inl (by decide)
    · exact .inr (.inl rfl)
    · exact .inr (.inr rfl)
  rcases code with ⟨low, high⟩ | rfl | rfl
  · simp only [isBlank, blankRanges, List.any_cons, List.any_nil, Bool.or_false,
      Bool.or_eq_false_iff, Bool.and_eq_false_iff, decide_eq_false_iff_not]
    omega
  · decide
  · decide

/-- A text that may stand as an argument. -/
def IsArgument (arg : String) : Prop := arg.isEmpty = false ∧ arg.toList.all argumentChar = true

theorem isArgument_iff {arg : String} :
    IsArgument arg ↔ arg ≠ "" ∧
      ∀ c ∈ arg.toList, c.isAlphanum = true ∨ c = '_' ∨ c = '-' ∨ c = '.' := by
  simp only [IsArgument, List.all_eq_true, argumentChar_iff, Bool.eq_false_iff, ne_eq,
    String.isEmpty_iff]

/-- An argument has no blanks. -/
theorem IsArgument.trim_eq {arg : String} (h : IsArgument arg) : Text.trim arg = arg :=
  Text.trim_of_solid fun c hc => isBlank_of_argumentChar (List.all_eq_true.mp h.2 c hc)

/-- The argument of the need, if it has one, may stand as an argument. -/
def Named : Need → Prop
  | .toolOutput arg | .step arg | .classification arg => IsArgument arg
  | .userPrompt | .parameters | .lastOutput => True

/-! ## 2. Spellings -/

/-- The words that take an argument, and the need that each makes of it. -/
inductive Takes : String → (String → Need) → Prop where
  | toolOutput : Takes "tool_output" .toolOutput
  | stepOutput : Takes "step_output" .toolOutput
  | step : Takes "step" .step
  | classification : Takes "classification" .classification

/-- The texts of a need, without blanks around them. -/
inductive Spells : String → Need → Prop where
  | userPrompt : Spells "user_prompt" .userPrompt
  | lastUserPrompt : Spells "last_user_prompt" .userPrompt
  | parameters : Spells "parameters" .parameters
  | lastOutput : Spells "last_output" .lastOutput
  | previousOutput : Spells "previous_output" .lastOutput
  | applied {word blanks inner : String} {make : String → Need} (takes : Takes word make)
      (blank : Text.allBlank blanks = true) (argument : IsArgument (Text.trim inner)) :
      Spells (word ++ blanks ++ "(" ++ inner ++ ")") (make (Text.trim inner))

theorem ofHead?_eq_some_iff {head arg : String} {n : Need} :
    ofHead? head arg = some n ↔ ∃ make, Takes head make ∧ n = make arg := by
  constructor
  · intro h
    unfold ofHead? at h
    split at h <;> cases h
    · exact ⟨_, .toolOutput, rfl⟩
    · exact ⟨_, .stepOutput, rfl⟩
    · exact ⟨_, .step, rfl⟩
    · exact ⟨_, .classification, rfl⟩
  · rintro ⟨make, takes, rfl⟩
    cases takes <;> rfl

theorem spells_of_ofWord {s : String} {n : Need} (h : ofWord s = .ok n) : Spells s n := by
  unfold ofWord at h
  split at h <;> cases h
  · exact .userPrompt
  · exact .lastUserPrompt
  · exact .parameters
  · exact .lastOutput
  · exact .previousOutput

theorem Takes.trim_append {word blanks : String} {make : String → Need} (h : Takes word make)
    (blank : Text.allBlank blanks = true) : Text.trim (word ++ blanks) = word := by
  have solid : Text.trim word = word := by cases h <;> rfl
  have none : ([] : List Char).all isBlank = true := List.all_nil
  have forgotten := Text.trimChars_surrounded none blank word.toList
  rw [List.nil_append] at forgotten
  rw [Text.trim, String.toList_append, forgotten, ← Text.trim, solid]

/-- The first parenthesis stands behind the word and the blanks. -/
theorem Takes.not_mem_append {word blanks : String} {make : String → Need} (h : Takes word make)
    (blank : Text.allBlank blanks = true) : '(' ∉ (word ++ blanks).toList := by
  rw [String.toList_append, List.mem_append, not_or]
  constructor
  · cases h <;> decide
  · intro paren
    exact absurd (List.all_eq_true.mp blank _ paren) (by decide)

/-- A spelling has no blanks around it. -/
theorem Spells.trim_eq {s : String} {n : Need} (h : Spells s n) : Text.trim s = s := by
  cases h with
  | userPrompt | lastUserPrompt | parameters | lastOutput | previousOutput => rfl
  | @applied word blanks inner make takes blank argument =>
    have kept : Text.trimChars (word ++ blanks ++ "(" ++ inner ++ ")").toList =
        (word ++ blanks ++ "(" ++ inner ++ ")").toList := by
      apply Text.trimChars_of_ends
      · cases takes <;> simp [isBlank, blankRanges]
      · rw [String.toList_append, show (")").toList = [')'] from rfl, List.getLast?_concat]
        rintro z ⟨⟩
        decide
    rw [Text.trim, kept, String.ofList_toList]

/-! ## 3. Reading -/

/-- What is read was spelled. -/
theorem spells_of_parseTrimmed {s : String} {n : Need} (trimmed : Text.trim s = s)
    (h : parseTrimmed s = .ok n) : Spells s n := by
  rw [parseTrimmed] at h
  split at h
  · cases h
  · split at h
    · exact spells_of_ofWord h
    · next head rest cut =>
      split at h
      · cases h
      · next inner found =>
        dsimp only at h
        split at h
        · cases h
        · next some =>
          split at h
          · cases h
          · next all =>
            split at h
            · next made =>
              cases h
              obtain ⟨make, takes, rfl⟩ := ofHead?_eq_some_iff.mp made
              have whole : s = head ++ ("(" ++ inner ++ ")") := by
                apply String.toList_injective
                rw [Text.cut?_eq_some cut, Text.before?_eq_some found]
                simp
              rw [whole] at trimmed
              obtain ⟨blanks, parts, blank⟩ := Text.blanks_behind trimmed
              have spelled := Spells.applied takes blank ⟨by simpa using some, by simpa using all⟩
              rw [← parts] at spelled
              rwa [whole, ← String.append_assoc, ← String.append_assoc]
            · cases h

/-- What is spelled is read. -/
theorem parseTrimmed_of_spells {s : String} {n : Need} (h : Spells s n) :
    parseTrimmed s = .ok n := by
  cases h with
  | userPrompt | lastUserPrompt | parameters | lastOutput | previousOutput => rfl
  | @applied word blanks inner make takes blank argument =>
    have cut : Text.cut? '(' (word ++ blanks ++ "(" ++ inner ++ ")") =
        some (word ++ blanks, inner ++ ")") := by
      have chars : (word ++ blanks ++ "(" ++ inner ++ ")").toList =
          (word ++ blanks).toList ++ '(' :: (inner ++ ")").toList := by simp
      rw [Text.cut?, chars, Text.cutChars?_append (takes.not_mem_append blank)]
      simp
    have made : ofHead? word (Text.trim inner) = some (make (Text.trim inner)) :=
      ofHead?_eq_some_iff.mpr ⟨make, takes, rfl⟩
    have some : (word ++ blanks ++ "(" ++ inner ++ ")").isEmpty = false := by simp
    rw [parseTrimmed, some, if_neg Bool.false_ne_true, cut]
    simp only [Text.before?_append, takes.trim_append blank, argument.1, argument.2, made]
    rfl

/-- **Reading accepts the spellings of needs, with blanks around them, and nothing else.** -/
theorem parse_eq_ok_iff {s : String} {n : Need} : parse s = .ok n ↔ Spells (Text.trim s) n :=
  ⟨spells_of_parseTrimmed (Text.trim_trim s), parseTrimmed_of_spells⟩

/-- The argument of a need that is read may stand as one. -/
theorem named_of_parse {s : String} {n : Need} (h : parse s = .ok n) : n.Named := by
  have spelled := parse_eq_ok_iff.mp h
  generalize Text.trim s = t at spelled
  cases spelled with
  | userPrompt | lastUserPrompt | parameters | lastOutput | previousOutput => trivial
  | applied takes _ argument => cases takes <;> exact argument

/-! ## 4. Printing -/

/-- A need is printed in one of its spellings. -/
theorem spells_display {n : Need} (h : n.Named) : Spells n.display n := by
  have applied : ∀ {word arg : String} {make : String → Need}, Takes word make → IsArgument arg →
      Spells (word ++ "(" ++ arg ++ ")") (make arg) := by
    intro word arg make takes argument
    have none : Text.allBlank "" = true := rfl
    have spelled := Spells.applied takes none (argument.trim_eq.symm ▸ argument)
    rwa [argument.trim_eq, String.append_empty] at spelled
  cases n with
  | userPrompt => exact .userPrompt
  | parameters => exact .parameters
  | lastOutput => exact .lastOutput
  | toolOutput arg => exact applied .toolOutput h
  | step arg => exact applied .step h
  | classification arg => exact applied .classification h

/-- **A need is read from what is printed of it.** -/
theorem parse_display {n : Need} (h : n.Named) : parse n.display = .ok n := by
  have spelled := spells_display h
  rw [parse_eq_ok_iff, spelled.trim_eq]
  exact spelled

/-- A text is read as a need exactly if it spells that need, with blanks around it or not. Arguments
are ASCII letters, digits, `_`, `-` and `.`, at least one of them. What is printed of a need that
was read is read as the same need. -/
theorem reads_its_spellings :
    (∀ s n, parse s = .ok n ↔ Spells (Text.trim s) n) ∧
    (∀ arg, IsArgument arg ↔ arg ≠ "" ∧
      ∀ c ∈ arg.toList, c.isAlphanum = true ∨ c = '_' ∨ c = '-' ∨ c = '.') ∧
    ∀ s n, parse s = .ok n → parse n.display = .ok n :=
  ⟨fun _ _ => parse_eq_ok_iff, fun _ => isArgument_iff,
    fun _ _ h => parse_display (named_of_parse h)⟩

/-- Blanks in all three places where they may stand, and the other word for an output. -/
theorem reads_its_spellings_padded :
    parse " step_output ( draft-2 )\n" = .ok (.toolOutput "draft-2") ∧
      parse "tool_output(draft-2)" = .ok (.toolOutput "draft-2") := by
  have spelled : Spells "step_output ( draft-2 )" (.toolOutput "draft-2") :=
    @Spells.applied "step_output" " " " draft-2 " _ .stepOutput rfl ⟨rfl, rfl⟩
  have read := (reads_its_spellings.1 " step_output ( draft-2 )\n" _).mpr spelled
  have printed : (Need.toolOutput "draft-2").display = "tool_output(draft-2)" := by decide
  refine ⟨read, ?_⟩
  rw [← printed]
  exact reads_its_spellings.2.2 _ _ read

end Runbook.Need
