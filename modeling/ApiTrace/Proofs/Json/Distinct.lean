import Mathlib.Data.List.Basic
import ApiTrace.Proofs.Json.Steps

/-!
# Objects without repeated names

A document that is read has no object in which a name stands twice (`Json.distinct_of_read`), since
a member whose name is there already takes the place of the old one.
-/

namespace ApiTrace.Json

/-- Whether no object in a value has a name twice. -/
inductive Distinct : Json → Prop where
  | null : Distinct .null
  | bool (b : Bool) : Distinct (.bool b)
  | int (n : Int) : Distinct (.int n)
  | float (x : Binary64) : Distinct (.float x)
  | string (t : Text) : Distinct (.string t)
  | array {items : List Json} (h : ∀ v ∈ items, Distinct v) : Distinct (.array items)
  | object {members : List (Text × Json)} (names : (members.map Prod.fst).Nodup)
      (values : ∀ p ∈ members, Distinct p.2) : Distinct (.object members)

/-! ## Members -/

theorem names_setMember {α : Type} (name : Text) (value : α) (members : List (Text × α)) :
    (setMember name value members).map Prod.fst =
      if name ∈ members.map Prod.fst then members.map Prod.fst else members.map Prod.fst ++
        [name] := by
  induction members with
  | nil => rfl
  | cons p rest ih =>
    obtain ⟨other, old⟩ := p
    rw [setMember]
    by_cases hother : other = name
    · simp [hother]
    · simp only [hother, if_false, List.map_cons, ih, List.mem_cons, Ne.symm hother, false_or]
      split <;> rfl

theorem nodup_setMember {α : Type} {members : List (Text × α)} (h : (members.map Prod.fst).Nodup)
    (name : Text) (value : α) : ((setMember name value members).map Prod.fst).Nodup := by
  rw [names_setMember]
  split
  · exact h
  · rename_i hname
    rw [List.perm_append_singleton name _ |>.nodup_iff, List.nodup_cons]
    exact ⟨hname, h⟩

theorem mem_setMember {α : Type} {members : List (Text × α)} {name : Text} {value : α}
    {p : Text × α} (h : p ∈ setMember name value members) : p ∈ members ∨ p.2 = value := by
  induction members with
  | nil =>
    cases List.mem_singleton.1 h
    exact .inr rfl
  | cons q rest ih =>
    obtain ⟨other, old⟩ := q
    rw [setMember] at h
    split at h
    · rcases List.mem_cons.1 h with rfl | h
      · exact .inr rfl
      · exact .inl (.tail _ h)
    · rcases List.mem_cons.1 h with rfl | h
      · exact .inl (.head _)
      · exact (ih h).imp_left (.tail _)

theorem Distinct.setMember {members : List (Text × Json)} {value : Json}
    (h : Distinct (.object members)) (hvalue : value.Distinct) (name : Text) :
    Distinct (.object (setMember name value members)) := by
  cases h with
  | object names values =>
    refine .object (nodup_setMember names name value) ?_
    intro p hp
    rcases mem_setMember hp with hp | rfl
    · exact values p hp
    · exact hvalue

/-! ## Reading -/

/-- Whether what is open so far has no name twice. -/
def Frame.Distinct : Frame → Prop
  | .array items => ∀ v ∈ items, v.Distinct
  | .object members | .member members _ => Json.Distinct (.object members)

/-- Whether all that is read so far has no name twice. -/
structure Reader.Distinct (r : Reader) : Prop where
  stack : ∀ frame ∈ r.stack, frame.Distinct
  document : ∀ document, r.expectation = .nothing document → document.Distinct

namespace Reader

variable {r r' : Reader} {v : Json} {p : CodePoint}

theorem distinct_start : start.Distinct := ⟨by simp [start], by simp [start]⟩

theorem Distinct.mode (h : r.Distinct) (mode : Mode) : Distinct { r with mode } :=
  ⟨h.stack, h.document⟩

/-- The innermost frame and those around it. -/
theorem Distinct.frames (h : r.Distinct) {frame : Frame} {rest : List Frame}
    (hstack : r.stack = frame :: rest) : frame.Distinct ∧ ∀ frame ∈ rest, frame.Distinct :=
  List.forall_mem_cons.1 (hstack ▸ h.stack)

theorem Distinct.accept (h : r.Distinct) (hv : v.Distinct) : (r.accept v).Distinct := by
  unfold Reader.accept
  split
  · refine ⟨by simp, ?_⟩
    rintro document ⟨⟩
    exact hv
  · rename_i hstack
    obtain ⟨hframe, hrest⟩ := h.frames hstack
    refine ⟨List.forall_mem_cons.2 ⟨?_, hrest⟩, nofun⟩
    exact List.forall_mem_cons.2 ⟨hv, hframe⟩
  · rename_i hstack
    obtain ⟨hframe, hrest⟩ := h.frames hstack
    exact ⟨List.forall_mem_cons.2 ⟨Json.Distinct.setMember hframe hv _, hrest⟩, nofun⟩
  · rename_i hstack
    exact ⟨List.forall_mem_cons.2 (h.frames hstack), nofun⟩

theorem Distinct.acceptString (h : r.Distinct) (t : Text) : (r.acceptString t).Distinct := by
  unfold Reader.acceptString
  split
  iterate 2
    rename_i hstack
    obtain ⟨hframe, hrest⟩ := h.frames hstack
    exact ⟨List.forall_mem_cons.2 ⟨hframe, hrest⟩, nofun⟩
  exact h.accept (.string t)

theorem distinct_of_integer {t : Text} (h : integer t = .ok v) : v.Distinct := by
  simp only [integer] at h
  split at h
  · cases h
  · cases h
    exact .int _

theorem distinct_of_numberValue {t : Text} {part : NumberPart} (h : numberValue t part = .ok v) :
    v.Distinct := by
  cases part with
  | zero | whole => exact distinct_of_integer h
  | fraction | exponent =>
    simp only [numberValue] at h
    split at h
    · cases h
      exact .float _
    · cases h
  | sign => cases h
  | point | mark | markSign =>
    simp only [numberValue] at h
    split at h
    · cases h
    · obtain ⟨_, -, h⟩ := bind_eq_ok.1 h
      cases h

theorem distinct_of_wordValue? {word : Text} (h : wordValue? word = some v) : v.Distinct := by
  obtain ⟨l, l', hwords, -⟩ := List.lookup_eq_some_iff.1 h
  have hmem : (word, v) ∈ l ++ (word, v) :: l' := by simp
  rw [← hwords] at hmem
  simp only [List.mem_cons, Prod.mk.injEq, List.not_mem_nil, or_false] at hmem
  rcases hmem with ⟨-, rfl⟩ | ⟨-, rfl⟩ | ⟨-, rfl⟩ | ⟨-, rfl⟩ | ⟨-, rfl⟩ | ⟨-, rfl⟩
  · exact .null
  · exact .bool true
  · exact .bool false
  all_goals exact .float _

theorem Distinct.endToken (h : r.Distinct) (hr' : r.endToken = .ok r') : r'.Distinct := by
  unfold Reader.endToken at hr'
  split at hr'
  · obtain ⟨v, hv, hr'⟩ := bind_eq_ok.1 hr'
    cases hr'
    exact h.accept (distinct_of_numberValue hv)
  · split at hr'
    · rename_i hv
      cases hr'
      exact h.accept (distinct_of_wordValue? hv)
    · cases hr'
  · cases hr'
    exact h

theorem Distinct.close (h : r.Distinct) (hr' : r.close p = .ok r') : r'.Distinct := by
  unfold Reader.close at hr'
  split at hr'
  · rename_i hstack
    obtain ⟨hframe, hrest⟩ := h.frames hstack
    split at hr'
    · cases hr'
      refine Distinct.accept ⟨hrest, h.document⟩ (.array ?_)
      intro v hv
      exact hframe v (List.mem_reverse.1 hv)
    · cases hr'
  · rename_i hstack
    obtain ⟨hframe, hrest⟩ := h.frames hstack
    split at hr'
    · cases hr'
      exact Distinct.accept ⟨hrest, h.document⟩ hframe
    · cases hr'
  · cases hr'

theorem Distinct.begins (h : r.Distinct) (hr' : r.Begins p r') : r'.Distinct := by
  cases hr' with
  | space => exact h
  | string | number | word => exact h.mode _
  | array => exact ⟨List.forall_mem_cons.2 ⟨by simp [Frame.Distinct], h.stack⟩, nofun⟩
  | object => exact ⟨List.forall_mem_cons.2 ⟨.object List.nodup_nil (by simp), h.stack⟩, nofun⟩
  | close hr' => exact h.close hr'
  | value | name => exact ⟨h.stack, nofun⟩

theorem Distinct.step (h : r.Distinct) (hr' : r.step p = .ok r') : r'.Distinct := by
  cases steps_of_step hr' with
  | begins _ hr' => exact h.begins hr'
  | ends hend hr' => exact (h.endToken hend).begins hr'
  | string => exact h.acceptString _
  | number | other => exact h.mode _

theorem Distinct.foldlM {t : Text} (h : r.Distinct) (hr' : t.foldlM Reader.step r = .ok r') :
    r'.Distinct := by
  induction t generalizing r with
  | nil =>
    cases hr'
    exact h
  | cons p t ih =>
    rw [List.foldlM_cons] at hr'
    obtain ⟨r₁, hr₁, hr'⟩ := bind_eq_ok.1 hr'
    exact ih (h.step hr₁) hr'

/-- The text ends after a token, and nothing else was to come. -/
theorem exists_endToken_of_finish {document : Json} (h : r.finish = .ok document) :
    ∃ r', r.endToken = .ok r' ∧ r'.expectation = .nothing document := by
  unfold Reader.finish at h
  dsimp only at h
  split at h
  iterate 3
    obtain ⟨r', hr', h⟩ := bind_eq_ok.1 h
    refine ⟨r', hr', ?_⟩
    split at h
    · rename_i hdocument
      cases h
      exact hdocument
    · cases h
  cases h

end Reader

/-- **A document that is read has no name twice in an object.** -/
theorem distinct_of_read {t : Text} {document : Json} (h : read t = .ok document) :
    document.Distinct := by
  obtain ⟨r, hr, h⟩ := bind_eq_ok.1 h
  obtain ⟨r', hr', hdocument⟩ := Reader.exists_endToken_of_finish h
  exact ((Reader.distinct_start.foldlM hr).endToken hr').document _ hdocument

end ApiTrace.Json
