import Runbook.Proofs.Json.Taking
import Runbook.Proofs.Tool.FanOut

/-!
# The inputs of a query

A query names a tool and carries that tool's inputs. Its entries but the tool, in the order in which
they are declared, are `declared`. Taking the tool out of the table moves the last entry into its
place, and so does respelling `prompt_template`; hence the tool receives these entries, but not
always in this order. `inputs_ofFields` says when it does.
-/

set_option autoImplicit false

namespace Runbook

namespace FanOut

open Fields (bringUp)

/-! ## 1. The entries of a query -/

/-- The tool that a query names, or else the model call. -/
def named (fs : Fields Json) : String :=
  match Fields.get? "tool" fs with
  | some (.str t) => t
  | _ => defaultTool

/-- `prompt_template` is a second spelling of `prompt`, for queries without that. -/
def isRespelled (fs : Fields Json) : Bool :=
  !Fields.has "prompt" fs && Fields.has "prompt_template" fs

/-- An entry under the name that it goes by. -/
def respell (e : String × Json) : String × Json :=
  if e.1 = "prompt_template" then ("prompt", e.2) else e

/-- The entries but the tool. -/
def others (fs : Fields Json) : Fields Json := fs.filter (·.1 ≠ "tool")

/-- The entries but the tool as they are declared. -/
def declared (fs : Fields Json) : Fields Json :=
  if isRespelled fs then (others fs).map respell else others fs

/-- The entries behind the tool. -/
def behind (fs : Fields Json) : Fields Json := (fs.dropWhile (·.1 ≠ "tool")).tail

/-- Nothing is moved: there is at most one entry behind the tool, not counting one that is respelled,
and that one is the last. -/
structure Orderly (fs : Fields Json) : Prop where
  behind : ((behind fs).filter fun e => ¬ (isRespelled fs = true ∧ e.1 = "prompt_template")).length ≤ 1
  last : isRespelled fs = true → (others fs).getLast?.map (·.1) = some "prompt_template"

/-- A table parted at its tool. -/
inductive Parted : Fields Json → Fields Json → Fields Json → Prop where
  | tool (front : Fields Json) (v : Json) (back : Fields Json) :
      Parted (front ++ ("tool", v) :: back) front back
  | none (fs : Fields Json) : Parted fs fs []

variable {fs front back : Fields Json}

theorem exists_parted (distinct : fs.names.Nodup) :
    ∃ front back, Parted fs front back ∧ "tool" ∉ (front ++ back).names ∧
      (front ++ back).names.Nodup := by
  by_cases here : "tool" ∈ fs.names
  · obtain ⟨front, v, back, rfl, outside⟩ := Fields.exists_split here
    refine ⟨front, back, .tool front v back, ?_, ?_⟩
    all_goals simp only [Fields.names, List.map_append, List.map_cons] at *
    all_goals rw [List.nodup_middle, List.nodup_cons] at distinct
    · exact distinct.1
    · exact distinct.2
  · exact ⟨fs, [], .none fs, by simpa using here, by simpa using distinct⟩

theorem filter_others (h : "tool" ∉ fs.names) : fs.filter (·.1 ≠ "tool") = fs := by
  rw [List.filter_eq_self]
  intro e he
  simp only [ne_eq, decide_not, Bool.not_eq_eq_eq_not, Bool.not_true, decide_eq_false_iff_not]
  rintro same
  exact h (same ▸ List.mem_map_of_mem he)

theorem Parted.others (h : Parted fs front back) (outside : "tool" ∉ (front ++ back).names) :
    others fs = front ++ back := by
  have sub : "tool" ∉ front.names ∧ "tool" ∉ back.names := by
    simpa [Fields.names, not_or] using outside
  cases h with
  | tool front v back =>
    rw [FanOut.others, List.filter_append, List.filter_cons_of_neg (by simp),
      filter_others sub.1, filter_others sub.2]
  | none fs => rw [FanOut.others, filter_others sub.1, List.append_nil]

theorem Parted.behind (h : Parted fs front back) (outside : "tool" ∉ (front ++ back).names) :
    behind fs = back := by
  have away (e : String × Json) (he : e ∈ front) : e.1 ≠ "tool" := by
    rintro same
    exact outside (same ▸ List.mem_map_of_mem (List.mem_append_left back he))
  cases h with
  | tool front v back =>
    rw [FanOut.behind, List.dropWhile_append_of_pos (by simpa using away)]
    simp
  | none fs =>
    have all : (fs ++ []).dropWhile (fun e : String × Json => decide (e.1 ≠ "tool")) = [] :=
      List.dropWhile_append_of_pos (by simpa using away)
    rw [List.append_nil] at all
    rw [FanOut.behind, all]
    rfl

theorem Parted.take (h : Parted fs front back) (outside : "tool" ∉ (front ++ back).names) :
    Fields.take "tool" fs = front ++ bringUp back := by
  have sub : "tool" ∉ front.names ∧ "tool" ∉ back.names := by
    simpa [Fields.names, not_or] using outside
  cases h with
  | tool front v back => exact Fields.take_split v sub.1
  | none fs => rw [Fields.take_of_not_mem sub.1, Fields.bringUp_nil, List.append_nil]

theorem has_iff {name : String} : Fields.has name fs = true ↔ name ∈ fs.names :=
  Fields.get?_isSome_iff name fs

theorem has_of_perm {gs : Fields Json} (perm : fs.Perm gs) (name : String) :
    Fields.has name fs = Fields.has name gs := by
  rw [Bool.eq_iff_iff, has_iff, has_iff]
  exact (perm.map _).mem_iff

/-- The tool is not among what is left. -/
theorem Parted.has (h : Parted fs front back) {name : String} (other : name ≠ "tool") :
    Fields.has name fs = Fields.has name (front ++ back) := by
  rw [Bool.eq_iff_iff, has_iff, has_iff]
  cases h with
  | tool front v back => simp [Fields.names, other]
  | none fs => simp

/-! ## 2. What the tool receives -/

theorem tool_ofFields (index : Nat) (fs : Fields Json) :
    (Query.ofFields index fs).tool = named fs := by
  unfold Query.ofFields
  dsimp only
  split <;> rfl

theorem inputs_plain (index : Nat) {rest : Fields Json} (taken : Fields.take "tool" fs = rest)
    (plain : (!Fields.has "prompt" rest && Fields.has "prompt_template" rest) = false) :
    (Query.ofFields index fs).inputs = rest := by
  unfold Query.ofFields
  rw [taken]
  dsimp only
  split
  · next template none some =>
    rw [none, Fields.has, some] at plain
    cases plain
  · rfl

/-- What is respelled comes last, and the last one in its place. -/
theorem inputs_respelled (index : Nat) {first rest : Fields Json} {t : Json}
    (taken : Fields.take "tool" fs = first ++ ("prompt_template", t) :: rest)
    (new : "prompt" ∉ (first ++ rest).names) (outside : "prompt_template" ∉ first.names) :
    (Query.ofFields index fs).inputs = first ++ bringUp rest ++ [("prompt", t)] := by
  have none : Fields.has "prompt" (first ++ ("prompt_template", t) :: rest) = false := by
    rw [Bool.eq_false_iff, ne_eq, has_iff]
    simpa [Fields.names] using new
  have some : Fields.get? "prompt_template" (first ++ ("prompt_template", t) :: rest) = some t :=
    Fields.get?_split t outside
  have fresh : "prompt" ∉ (first ++ bringUp rest).names := fun h =>
    new (((((Fields.bringUp_perm rest).append_left first).map _).mem_iff).mp h)
  unfold Query.ofFields
  rw [taken]
  dsimp only
  rw [none, some]
  dsimp only
  rw [Fields.take_split t outside, Fields.put_of_not_mem t fresh]

/-- Where the respelled entry is: among those that are declared, and among those that are left when
the tool is out. -/
structure Respelled (front back first rest before after : Fields Json) (t : Json) : Prop where
  left : front ++ bringUp back = first ++ ("prompt_template", t) :: rest
  declared : front ++ back = before ++ ("prompt_template", t) :: after
  outside : "prompt_template" ∉ first.names
  alone : "prompt_template" ∉ (before ++ after).names
  new : "prompt" ∉ (before ++ after).names
  perm : (first ++ rest).Perm (before ++ after)

theorem exists_respelled (distinct : (front ++ back).names.Nodup)
    (none : Fields.has "prompt" (front ++ back) = false)
    (some : Fields.has "prompt_template" (front ++ back) = true) :
    ∃ first rest before after t, Respelled front back first rest before after t := by
  have perm : (front ++ bringUp back).Perm (front ++ back) :=
    (Fields.bringUp_perm back).append_left front
  obtain ⟨before, t, after, declared, -⟩ := Fields.exists_split (has_iff.mp some)
  obtain ⟨first, t', rest, left, outside⟩ :=
    Fields.exists_split (has_iff.mp ((has_of_perm perm _).trans some))
  rw [declared] at distinct none perm
  rw [left] at perm
  have alone : "prompt_template" ∉ (before ++ after).names ∧ (before ++ after).names.Nodup := by
    simp only [Fields.names, List.map_append, List.map_cons] at distinct ⊢
    rwa [List.nodup_middle, List.nodup_cons] at distinct
  -- the entry has one value
  have both : (("prompt_template", t') :: (first ++ rest)).Perm
      (("prompt_template", t) :: (before ++ after)) :=
    (List.perm_middle.symm.trans perm).trans List.perm_middle
  have same : t' = t := by
    rcases List.mem_cons.mp (both.subset List.mem_cons_self) with same | there
    · exact (Prod.mk.inj same).2
    · exact absurd (List.mem_map_of_mem there) alone.1
  subst same
  refine ⟨first, rest, before, after, t', left, declared, outside, alone.1, fun h => ?_,
    both.cons_inv⟩
  rw [Bool.eq_false_iff, ne_eq, has_iff] at none
  refine none ?_
  simp only [Fields.names, List.map_append, List.map_cons, List.mem_append, List.mem_cons] at h ⊢
  exact h.imp_right .inr

theorem map_respell (h : "prompt_template" ∉ fs.names) : fs.map respell = fs := by
  refine (List.map_congr_left fun e he => ?_).trans (List.map_id fs)
  rw [respell, if_neg]
  · rfl
  · rintro same
    exact h (same ▸ List.mem_map_of_mem he)

theorem split_inj {name : String} {a b c d : Fields Json} {v v' : Json} (ha : name ∉ a.names)
    (hc : name ∉ c.names) (h : a ++ (name, v) :: b = c ++ (name, v') :: d) : a = c ∧ b = d := by
  induction a generalizing c with
  | nil =>
    cases c with
    | nil => exact ⟨rfl, (List.cons.inj h).2⟩
    | cons e c => exact absurd (by rw [← (List.cons.inj h).1]; exact List.mem_cons_self) hc
  | cons x a ih =>
    cases c with
    | nil => exact absurd (by rw [(List.cons.inj h).1]; exact List.mem_cons_self) ha
    | cons e c =>
      obtain ⟨first, later⟩ := List.cons.inj h
      obtain ⟨rfl, rfl⟩ := ih (fun h => ha (List.mem_cons_of_mem _ h))
        (fun h => hc (List.mem_cons_of_mem _ h)) later
      exact ⟨first ▸ rfl, rfl⟩

/-- Without an entry to be respelled. -/
theorem plain_iff (distinct : (front ++ back).names.Nodup) (behind : behind fs = back)
    (plain : isRespelled fs = false) : front ++ bringUp back = front ++ back ↔ Orderly fs := by
  have few : Orderly fs ↔ back.length ≤ 1 := by
    constructor
    · intro h
      have short := h.behind
      rwa [behind, plain, List.filter_eq_self.mpr (by simp)] at short
    · intro short
      refine ⟨?_, by simp [plain]⟩
      rw [behind]
      exact Nat.le_trans (List.length_filter_le _ _) short
  rw [few, List.append_cancel_left_eq]
  exact Fields.bringUp_eq_self_iff
    ((List.Nodup.of_map _ distinct).sublist (List.sublist_append_right front back))

/-- With one that is the last entry, behind the tool: it is not counted. -/
theorem orderly_of_last {t : Json} (behind : behind fs = back ++ [("prompt_template", t)])
    (others : others fs = front ++ (back ++ [("prompt_template", t)]))
    (which : isRespelled fs = true) (alone : "prompt_template" ∉ Fields.names back) :
    Orderly fs ↔ back.length ≤ 1 := by
  have filtered : ((back ++ [("prompt_template", t)]).filter fun e =>
      decide ¬ (isRespelled fs = true ∧ e.1 = "prompt_template")) = back := by
    rw [List.filter_append, List.filter_eq_self.mpr, which]
    · simp
    · intro e he
      rw [decide_eq_true_eq]
      rintro ⟨-, same⟩
      exact alone (same ▸ List.mem_map_of_mem he)
  constructor
  · intro h
    have short := h.behind
    rwa [behind, filtered] at short
  · intro short
    refine ⟨by rwa [behind, filtered], fun _ => ?_⟩
    rw [others, ← List.append_assoc, List.getLast?_concat]
    rfl

namespace Respelled

variable {first rest before after : Fields Json} {t : Json}

/-- With one that is the last, and nothing behind the tool. -/
theorem iff_of_none (r : Respelled front [] first rest before [] t) (behind : FanOut.behind fs = [])
    (others : others fs = front ++ []) :
    first ++ bringUp rest ++ [("prompt", t)] = before ++ [("prompt", t)] ↔ Orderly fs := by
  have left := r.left
  rw [Fields.bringUp_nil, r.declared] at left
  have outside : "prompt_template" ∉ before.names := by simpa using r.alone
  obtain ⟨rfl, rfl⟩ := split_inj outside r.outside left
  refine iff_of_true (by simp) ⟨by simp [behind], fun _ => ?_⟩
  rw [others, r.declared]
  simp

/-- With one that is the last of those behind the tool. -/
theorem iff_of_last {last : String × Json}
    (r : Respelled front (back ++ [last]) first rest before [] t)
    (distinct : (front ++ (back ++ [last])).names.Nodup)
    (behind : FanOut.behind fs = back ++ [last]) (others : others fs = front ++ (back ++ [last]))
    (which : isRespelled fs = true) :
    first ++ bringUp rest ++ [("prompt", t)] = before ++ [("prompt", t)] ↔ Orderly fs := by
  have whole := r.declared
  rw [← List.append_assoc] at whole
  obtain ⟨rfl, lasts⟩ := List.append_inj' whole rfl
  obtain rfl := (List.cons.inj lasts).1
  have alone : "prompt_template" ∉ front.names ∧ "prompt_template" ∉ Fields.names back := by
    simpa [Fields.names, not_or] using r.alone
  have left := r.left
  rw [Fields.bringUp_concat] at left
  obtain ⟨rfl, rfl⟩ := split_inj alone.1 r.outside left
  have apart : (front ++ back).Nodup := by
    rw [← List.append_assoc] at distinct
    exact (List.Nodup.of_map _ distinct).sublist (List.sublist_append_left _ _)
  rw [orderly_of_last behind others which alone.2, List.append_cancel_right_eq,
    List.append_cancel_left_eq]
  exact Fields.bringUp_eq_self_iff (apart.sublist (List.sublist_append_right front back))

/-- With one that has another behind it: that is moved. -/
theorem not_orderly {last : String × Json}
    (r : Respelled front back first rest before (after ++ [last]) t)
    (others : others fs = front ++ back) (which : isRespelled fs = true) :
    first ++ bringUp rest ++ [("prompt", t)] ≠ before ++ ("prompt", t) :: (after ++ [last]) ∧
      ¬ Orderly fs := by
  have new : last.1 ≠ "prompt" ∧ last.1 ≠ "prompt_template" := by
    have new := r.new
    have alone := r.alone
    simp only [Fields.names, List.map_append, List.mem_append, List.map_cons, List.map_nil,
      List.mem_singleton, not_or] at new alone
    exact ⟨Ne.symm new.2.2, Ne.symm alone.2.2⟩
  constructor
  · intro same
    rw [← List.cons_append, ← List.append_assoc] at same
    obtain ⟨-, lasts⟩ := List.append_inj' same rfl
    exact new.1 (congrArg Prod.fst (List.cons.inj lasts).1).symm
  · intro h
    have lasts := h.last which
    rw [others, r.declared, ← List.cons_append, ← List.append_assoc, List.getLast?_concat] at lasts
    exact new.2 (Option.some.inj lasts)

/-- With an entry to be respelled. -/
theorem orderly_iff (r : Respelled front back first rest before after t)
    (distinct : (front ++ back).names.Nodup) (behind : FanOut.behind fs = back)
    (others : others fs = front ++ back) (which : isRespelled fs = true) :
    first ++ bringUp rest ++ [("prompt", t)] = before ++ ("prompt", t) :: after ↔ Orderly fs := by
  rcases List.eq_nil_or_concat after with rfl | ⟨after, last, rfl⟩
  · rcases List.eq_nil_or_concat back with rfl | ⟨back, last, rfl⟩
    · exact r.iff_of_none behind others
    · rw [List.concat_eq_append] at r distinct behind others
      exact r.iff_of_last distinct behind others which
  · rw [List.concat_eq_append] at r ⊢
    obtain ⟨moved, disorderly⟩ := r.not_orderly others which
    exact iff_of_false moved disorderly

end Respelled

/-- **The tool receives the entries that are declared**, and receives them in this order just if
nothing is moved. -/
theorem inputs_ofFields (index : Nat) (distinct : fs.names.Nodup) :
    (Query.ofFields index fs).inputs.Perm (declared fs) ∧
      ((Query.ofFields index fs).inputs = declared fs ↔ Orderly fs) := by
  obtain ⟨front, back, parted, outside, distinct'⟩ := exists_parted distinct
  have others := parted.others outside
  have behind := parted.behind outside
  have taken := parted.take outside
  have perm : (front ++ bringUp back).Perm (front ++ back) :=
    (Fields.bringUp_perm back).append_left front
  have respelled : isRespelled fs =
      (!Fields.has "prompt" (front ++ back) && Fields.has "prompt_template" (front ++ back)) := by
    rw [isRespelled, parted.has (by simp), parted.has (by simp)]
  cases which : isRespelled fs with
  | false =>
    have plain : (!Fields.has "prompt" (front ++ bringUp back) &&
        Fields.has "prompt_template" (front ++ bringUp back)) = false := by
      rw [has_of_perm perm, has_of_perm perm, ← respelled, which]
    rw [inputs_plain index taken plain, declared, which, if_neg (by simp), others]
    exact ⟨perm, plain_iff distinct' behind which⟩
  | true =>
    rw [which] at respelled
    simp only [Bool.true_eq, Bool.and_eq_true, Bool.not_eq_true'] at respelled
    obtain ⟨first, rest, before, after, t, r⟩ :=
      exists_respelled distinct' respelled.1 respelled.2
    have new : "prompt" ∉ (first ++ rest).names := fun h => r.new ((r.perm.map _).mem_iff.mp h)
    have spelled : declared fs = before ++ ("prompt", t) :: after := by
      have alone : "prompt_template" ∉ before.names ∧ "prompt_template" ∉ after.names := by
        simpa [Fields.names, not_or] using r.alone
      rw [declared, which, if_pos rfl, others, r.declared, List.map_append, List.map_cons,
        map_respell alone.1, map_respell alone.2]
      rfl
    rw [inputs_respelled index (taken.trans r.left) new r.outside, spelled]
    refine ⟨?_, r.orderly_iff distinct' behind others which⟩
    have moved : (first ++ bringUp rest).Perm (before ++ after) :=
      ((Fields.bringUp_perm rest).append_left first).trans r.perm
    calc (first ++ bringUp rest ++ [("prompt", t)]).Perm
          (("prompt", t) :: (first ++ bringUp rest)) := List.perm_append_singleton ..
      List.Perm _ (("prompt", t) :: (before ++ after)) := moved.cons _
      List.Perm _ (before ++ ("prompt", t) :: after) := List.perm_middle.symm

end FanOut
end Runbook
