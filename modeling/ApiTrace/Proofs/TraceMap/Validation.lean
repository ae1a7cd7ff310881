import Mathlib.Data.List.Basic
import ApiTrace.TraceMap.Checker

/-!
# What is trusted of a validator

`Validator.Lawful` says what the results about documents ask of a validator: it reads a boolean by
its spellings, looks at every member of a dictionary and at every field of a record, and reports all
that it finds, in order and with its place. Nothing in the laws is about trace maps.

The validator without limits keeps the laws (`Checker.lawful_none`). The one that the program runs
with does the same as that one for all values that nest within its limits and have names that can be
read (`Checker.check_eq_none`).
-/

namespace ApiTrace

open Document

/-! ## Laws -/

/-- The spellings of a boolean: itself, the numbers zero and one, and some words in any letter
case. -/
inductive Validator.Spells : Json → Bool → Prop where
  | bool (b : Bool) : Spells (.bool b) b
  | zero : Spells (.int 0) false
  | one : Spells (.int 1) true
  | floatZero {x : Binary64} (h : x.toInt? = some 0) : Spells (.float x) false
  | floatOne {x : Binary64} (h : x.toInt? = some 1) : Spells (.float x) true
  | no {t : Text} (h : t.asciiLower ∈ ["0", "off", "f", "false", "n", "no"].map Text.ofString) :
      Spells (.string t) false
  | yes {t : Text} (h : t.asciiLower ∈ ["1", "on", "t", "true", "y", "yes"].map Text.ofString) :
      Spells (.string t) true

/-- What is trusted of a validator. Everything that is wrong with a part of a value is wrong with
the value; the fields of a record come in the order of their declaration, and after them the members
that are none of them, if these are forbidden. -/
structure Validator.Lawful (V : Validator) : Prop where
  boolean : ∀ v b, V.boolean v = .ok b ↔ Spells v b
  of_any : ∀ r v, V.violations r .any v = []
  of_boolean : ∀ r v, V.violations r .boolean v =
    match V.boolean v with
    | .ok _ => []
    | .error kind => [⟨[], kind⟩]
  of_dictionary : ∀ r type members, V.violations r (.dictionary type) (.object members) =
    members.flatMap fun p => (V.violations r type p.2).map (·.under p.1)
  of_no_dictionary : ∀ r type v, (∀ members, v ≠ .object members) →
    V.violations r (.dictionary type) v = [⟨[], .notAnObject⟩]
  of_record : ∀ r members, V.violations r .record (.object members) =
    (r.fields.flatMap fun f =>
      (members.lookup f.1).elim [] fun v => (V.violations r f.2 v).map (·.under f.1))
    ++ if r.isClosed then
      (members.filter fun p => (r.type? p.1).isNone).map fun p => ⟨[p.1], .unknownMember⟩
    else []
  of_no_record : ∀ r v, (∀ members, v ≠ .object members) →
    V.violations r .record v = [⟨[], .notANode⟩]

namespace Checker

/-! ## Booleans -/

theorem intFlag_eq_ok_iff {n : Int} {b : Bool} :
    intFlag n = .ok b ↔ n = 0 ∧ b = false ∨ n = 1 ∧ b = true := by
  unfold intFlag
  split
  · cases b <;> simp_all
  · split <;> cases b <;> simp_all

/-- Making letters small keeps surrogates. -/
theorem any_isSurrogate_asciiLower (t : Text) :
    t.asciiLower.any CodePoint.isSurrogate = t.any CodePoint.isSurrogate := by
  rw [Text.asciiLower, List.any_map]
  congr 1
  funext p
  cases p <;> rfl

/-- No word for true or false holds a surrogate. -/
theorem not_any_isSurrogate_of_mem_words {t : Text} (h : t.asciiLower ∈ trueWords ++ falseWords) :
    t.any CodePoint.isSurrogate = false := by
  have hwords : ∀ word ∈ trueWords ++ falseWords, word.any CodePoint.isSurrogate =
      false := by decide
  rw [← any_isSurrogate_asciiLower]
  exact hwords _ h

/-- No word stands for both. -/
theorem not_mem_trueWords_of_mem_falseWords {t : Text} (h : t ∈ falseWords) : t ∉ trueWords := by
  have hwords : ∀ word ∈ falseWords, word ∉ trueWords := by decide
  exact hwords t h

/-- A flag is read exactly if it is one of the spellings. -/
theorem flag_eq_ok_iff {v : Json} {b : Bool} : flag v = .ok b ↔ Validator.Spells v b := by
  constructor
  · intro h
    cases v with
    | bool b' =>
      cases h
      exact .bool b
    | int n =>
      simp only [flag] at h
      split at h
      · rcases intFlag_eq_ok_iff.1 h with ⟨rfl, rfl⟩ | ⟨rfl, rfl⟩
        · exact .zero
        · exact .one
      · cases h
    | float x =>
      simp only [flag] at h
      split at h
      · rename_i n hn
        split at h
        · rcases intFlag_eq_ok_iff.1 h with ⟨rfl, rfl⟩ | ⟨rfl, rfl⟩
          · exact .floatZero hn
          · exact .floatOne hn
        · cases h
      · cases h
    | string t =>
      simp only [flag] at h
      split at h
      · cases h
      · split at h
        · rename_i hword
          cases h
          exact .yes hword
        · split at h
          · rename_i hword
            cases h
            exact .no hword
          · cases h
    | null | array | object => cases h
  · intro h
    cases h with
    | bool => rfl
    | zero | one => rfl
    | floatZero h | floatOne h =>
      simp only [flag, h]
      rfl
    | no h =>
      have hfalse : _ ∈ falseWords := h
      simp [flag, not_any_isSurrogate_of_mem_words (List.mem_append_right _ hfalse), hfalse,
        not_mem_trueWords_of_mem_falseWords hfalse]
    | yes h =>
      have htrue : _ ∈ trueWords := h
      simp [flag, not_any_isSurrogate_of_mem_words (List.mem_append_left _ htrue), htrue]

/-! ## The validator without limits -/

variable {r : RecordType} {l : Limits} {type : ValueType}

theorem checkAll_eq_flatMap (members : List (Text × Json)) : checkAll r l type members =
    members.flatMap fun p => (check r l type p.2).map (·.under (l.shown p.1)) := by
  induction members with
  | nil => rfl
  | cons p rest ih => rw [checkAll, ih, List.flatMap_cons]

theorem checkField_eq_lookup (name : Text) (members : List (Text × Json)) :
    checkField r l type name members = (members.lookup name).elim [] (check r l type) := by
  induction members with
  | nil => rfl
  | cons p rest ih =>
    obtain ⟨other, value⟩ := p
    rw [checkField, List.lookup_cons]
    by_cases hname : other = name
    · simp [hname]
    · have hkey : (name == other) = false := by simpa using Ne.symm hname
      rw [if_neg hname, hkey, ih]

theorem check_record {members : List (Text × Json)} (hdepth : l.depth ≠ some 0)
    (hnames : ∀ p ∈ members, l.refuses p.1 = false ∧ l.shown p.1 = p.1) :
    check r l .record (.object members) =
      (r.fields.flatMap fun f =>
        (members.lookup f.1).elim [] fun v => (check r l.inside f.2 v).map (·.under f.1))
      ++ if r.isClosed then
        (members.filter fun p => (r.type? p.1).isNone).map fun p => ⟨[p.1], .unknownMember⟩
      else [] := by
  have hread : (members.any fun p => l.refuses p.1) = false := by
    rw [List.any_eq_false]
    intro p hp
    simp [(hnames p hp).1]
  rw [check, if_neg hdepth, hread, if_neg Bool.false_ne_true]
  congr 1
  · congr 1
    funext f
    rw [checkField_eq_lookup]
    cases members.lookup f.1 <;> rfl
  · congr 1
    refine List.map_congr_left fun p hp => ?_
    rw [(hnames p (List.mem_filter.1 hp).1).2]

theorem check_of_no_record {v : Json} (hdepth : l.depth ≠ some 0)
    (hv : ∀ members, v ≠ .object members) :
    check r l .record v = [⟨[], .notANode⟩] := by
  cases v with
  | object members => exact absurd rfl (hv members)
  | _ =>
    rw [check, if_neg hdepth]
    simp

theorem check_of_no_dictionary {v : Json} (hv : ∀ members, v ≠ .object members) :
    check r l (.dictionary type) v = [⟨[], .notAnObject⟩] := by
  cases v with
  | object members => exact absurd rfl (hv members)
  | _ =>
    rw [check]
    simp

/-- The validator without limits keeps the laws. -/
theorem lawful_none : (validator .none).Lawful where
  boolean _ _ := flag_eq_ok_iff
  of_any r v := by
    show check r _ .any v = []
    rw [check]
  of_boolean r v := by
    show check r _ .boolean v = _
    rw [check]
    rfl
  of_dictionary r type members := by
    show check r _ (.dictionary type) _ = _
    rw [check, checkAll_eq_flatMap]
    rfl
  of_no_dictionary _ _ _ := check_of_no_dictionary
  of_record _ _ := check_record (by simp [Limits.none]) fun _ _ => ⟨rfl, rfl⟩
  of_no_record _ _ := check_of_no_record (by simp [Limits.none])

/-! ## Values within the limits -/

/-- Whether everything in a value that is looked at is within some limits. -/
inductive Within (r : RecordType) : Limits → ValueType → Json → Prop where
  | any (l : Limits) (v : Json) : Within r l .any v
  | boolean (l : Limits) (v : Json) : Within r l .boolean v
  | dictionary {l : Limits} {type : ValueType} {members : List (Text × Json)}
      (names : ∀ p ∈ members, l.shown p.1 = p.1) (values : ∀ p ∈ members, Within r l type p.2) :
      Within r l (.dictionary type) (.object members)
  | noDictionary {l : Limits} {type : ValueType} {v : Json} (h : ∀ members, v ≠ .object members) :
      Within r l (.dictionary type) v
  | record {l : Limits} {members : List (Text × Json)} (depth : l.depth ≠ some 0)
      (names : ∀ p ∈ members, l.refuses p.1 = false ∧ l.shown p.1 = p.1)
      (values : ∀ f ∈ r.fields, ∀ v, members.lookup f.1 = some v → Within r l.inside f.2 v) :
      Within r l .record (.object members)
  | noRecord {l : Limits} {v : Json} (depth : l.depth ≠ some 0)
      (h : ∀ members, v ≠ .object members) :
      Within r l .record v

/-- Limits that are not met make no difference. -/
theorem check_eq_none {v : Json} (h : Within r l type v) :
    check r l type v = check r .none type v := by
  induction h with
  | any | boolean => rw [check, check]
  | dictionary names _ ih =>
    rw [check, check, checkAll_eq_flatMap, checkAll_eq_flatMap]
    refine List.flatMap_congr fun p hp => ?_
    rw [ih p hp, names p hp]
    rfl
  | noDictionary h => rw [check_of_no_dictionary h, check_of_no_dictionary h]
  | @record l members depth names _ ih =>
    rw [check_record depth names, check_record (by simp [Limits.none]) fun _ _ => ⟨rfl, rfl⟩]
    congr 1
    refine List.flatMap_congr fun f hf => ?_
    cases hv : members.lookup f.1 with
    | none => rfl
    | some v =>
      rw [Option.elim_some, ih f hf v hv]
      rfl
  | noRecord depth h =>
    rw [check_of_no_record depth h, check_of_no_record (by simp [Limits.none]) h]

end Checker

end ApiTrace
