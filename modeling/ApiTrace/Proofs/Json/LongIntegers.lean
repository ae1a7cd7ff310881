import Mathlib.Data.List.Induction
import ApiTrace.Proofs.Json.Steps

/-!
# Integers that are too long

A text is read as a document, breaks the grammar, or holds an integer with too many digits. The last
is the case exactly if such an integer comes where a value is expected, before anything that breaks
the grammar (`Json.read_eq_numeral_iff`). Nothing after the integer matters, except that digits, a
fraction or an exponent would make it another number.
-/

namespace ApiTrace.Json

/-- What can stand before the digits of an integer. -/
inductive IsSign : Text → Prop where
  | none : IsSign []
  | minus : IsSign [.scalar '-']

/-- Whether a text is an integer of some number of digits. -/
inductive IsInteger : Text → Nat → Prop where
  | zero {sign : Text} (hsign : IsSign sign) : IsInteger (sign ++ [CodePoint.scalar '0']) 1
  | whole {sign : Text} {first : CodePoint} {digits : Text} (hsign : IsSign sign)
      (hfirst : first ≠ '0') (hdigits : ∀ p ∈ first :: digits, p.digit?.isSome = true) :
      IsInteger (sign ++ first :: digits) (digits.length + 1)

/-- Whether a text goes on with an integer that stands before it. -/
inductive GoesOn : Text → Prop where
  | digit {p : CodePoint} (hp : p.digit?.isSome = true) (rest : Text) : GoesOn (p :: rest)
  | fraction {p : CodePoint} (hp : p.digit?.isSome = true) (rest : Text) : GoesOn ('.' :: p :: rest)
  | exponent {mark p : CodePoint} (hmark : mark = 'e' ∨ mark = 'E') (hp : p.digit?.isSome = true)
      (rest : Text) : GoesOn (mark :: p :: rest)
  | signedExponent {mark sign p : CodePoint} (hmark : mark = 'e' ∨ mark = 'E')
      (hsign : sign = '+' ∨ sign = '-') (hp : p.digit?.isSome = true) (rest : Text) :
      GoesOn (mark :: sign :: p :: rest)

/-- Whether a text is the start of a document after which a value can come. -/
def AwaitsValue (t : Text) : Prop :=
  ∃ r, t.foldlM Reader.step .start = .ok r ∧ r.mode = .between ∧ r.expectsValue = true

/-- Whether reading a text comes to an integer with too many digits. -/
def MeetsLongInteger (t : Text) : Prop :=
  ∃ before integer after n, t = before ++ integer ++ after ∧ AwaitsValue before ∧
    IsInteger integer n ∧
    Numeral.digitLimit < n ∧ ¬ GoesOn after

variable {p : CodePoint} {part part' : NumberPart} {t integer after : Text} {n : Nat}
    {e : ReadFault}
  {r r' : Reader}

/-! ## Numbers -/

theorem IsInteger.mem (h : IsInteger t n) (hp : p ∈ t) : p = '-' ∨ p.digit?.isSome = true := by
  cases h with
  | zero hsign =>
    rcases List.mem_append.1 hp with hp | hp
    · cases hsign with
      | none => cases hp
      | minus => exact .inl (List.mem_singleton.1 hp)
    · rw [List.mem_singleton.1 hp]
      exact .inr rfl
  | whole hsign _ hdigits =>
    rcases List.mem_append.1 hp with hp | hp
    · cases hsign with
      | none => cases hp
      | minus => exact .inl (List.mem_singleton.1 hp)
    · exact .inr (hdigits p hp)

theorem length_filterMap_digit? (h : ∀ p ∈ t, p.digit?.isSome = true) :
    (t.filterMap CodePoint.digit?).length = t.length := by
  rw [List.length_filterMap_eq_countP, List.countP_eq_length]
  exact h

theorem IsInteger.length (h : IsInteger t n) : (t.filterMap CodePoint.digit?).length = n := by
  have hminus : ∀ sign : Text, IsSign sign → sign.filterMap CodePoint.digit? = [] := by
    rintro sign ⟨⟩ <;> rfl
  cases h with
  | zero hsign =>
    rw [List.filterMap_append, hminus _ hsign]
    rfl
  | whole hsign _ hdigits =>
    rw [List.filterMap_append, hminus _ hsign, List.nil_append, length_filterMap_digit? hdigits]
    rfl

theorem IsInteger.integer_eq_error_iff (h : IsInteger t n) :
    Reader.integer t = .error e ↔ Numeral.digitLimit < n ∧ e = .numeral (.tooLongToRead n) := by
  simp only [Reader.integer, h.length]
  split
  · rename_i hlong
    simp [hlong, eq_comm]
  · rename_i hlong
    simp [hlong]

/-- What can stand after the whole part of a number, or after its fraction, if it breaks off
there. -/
inductive IsTail : Text → NumberPart → Prop where
  | point : IsTail [.scalar '.'] .point
  | mark {mark : CodePoint} (hmark : mark = 'e' ∨ mark = 'E') : IsTail [mark] .mark
  | markSign {mark sign : CodePoint} (hmark : mark = 'e' ∨ mark = 'E') (hsign : sign = '+' ∨
      sign = '-') :
      IsTail [mark, sign] .markSign

/-- How a number looks when it is read up to a part. -/
inductive Spelled : Text → NumberPart → Prop where
  | sign : Spelled [.scalar '-'] .sign
  | zero {sign : Text} (hsign : IsSign sign) : Spelled (sign ++ [CodePoint.scalar '0']) .zero
  | whole {sign : Text} {first : CodePoint} {digits : Text} (hsign : IsSign sign)
      (hfirst : first ≠ '0') (hdigits : ∀ p ∈ first :: digits, p.digit?.isSome = true) :
      Spelled (sign ++ first :: digits) .whole
  | integer {whole tail : Text} {part : NumberPart} {n : Nat} (h : IsInteger whole n)
      (htail : IsTail tail part) : Spelled (whole ++ tail) part
  | float {whole tail : Text} {part : NumberPart} (h : CodePoint.scalar '.' ∈ whole)
      (htail : IsTail tail part) (hpart : part ≠ .point) : Spelled (whole ++ tail) part
  | fraction {t : Text} (h : CodePoint.scalar '.' ∈ t) : Spelled t .fraction
  | exponent {t : Text} : Spelled t .exponent

theorem Spelled.start (h : part.Starts p) : Spelled [p] part := by
  cases h with
  | sign => exact .sign
  | zero => exact .zero .none
  | whole hp hzero => exact .whole .none hzero (by simpa using hp)

/-- An integer that goes on with a point or a mark may break off there. -/
theorem Spelled.of_isInteger (h : IsInteger t n)
    (hnext : p = '.' ∧ part = .point ∨ (p = 'e' ∨ p = 'E') ∧ part = .mark) :
    Spelled (t ++ [p]) part := by
  rcases hnext with ⟨rfl, rfl⟩ | ⟨hmark, rfl⟩
  · exact .integer h .point
  · exact .integer h (.mark hmark)

theorem IsTail.next {tail : Text} (h : IsTail tail part) (hnext : part.next? p = some part') :
    (part = .point ∧ part' = .fraction) ∨ part' = .exponent ∨
      IsTail (tail ++ [p]) part' ∧ part' ≠ .point := by
  cases h with
  | point =>
    simp only [NumberPart.next?] at hnext
    split at hnext <;> cases hnext
    exact .inl ⟨rfl, rfl⟩
  | mark hmark =>
    simp only [NumberPart.next?] at hnext
    split at hnext
    · cases hnext
      exact .inr (.inl rfl)
    · split at hnext
      · rename_i hsign
        cases hnext
        exact .inr (.inr ⟨.markSign hmark hsign, by decide⟩)
      · cases hnext
  | markSign =>
    simp only [NumberPart.next?] at hnext
    split at hnext <;> cases hnext
    exact .inr (.inl rfl)

theorem Spelled.next (h : Spelled t part) (hnext : part.next? p = some part') :
    Spelled (t ++ [p]) part' := by
  cases h with
  | sign =>
    simp only [NumberPart.next?] at hnext
    split at hnext
    · rename_i hp
      cases hnext
      rw [hp]
      exact .zero .minus
    · rename_i hp
      split at hnext
      · rename_i hdigit
        cases hnext
        exact .whole .minus hp (by simpa using hdigit)
      · cases hnext
  | zero hsign =>
    refine .of_isInteger (.zero hsign) ?_
    simp only [NumberPart.next?] at hnext
    split at hnext
    · rename_i hp
      cases hnext
      exact .inl ⟨hp, rfl⟩
    · split at hnext
      · rename_i hmark
        cases hnext
        exact .inr ⟨hmark, rfl⟩
      · cases hnext
  | whole hsign hfirst hdigits =>
    simp only [NumberPart.next?] at hnext
    split at hnext
    · rename_i hdigit
      cases hnext
      rw [List.append_assoc, List.cons_append]
      refine .whole hsign hfirst ?_
      rw [← List.cons_append]
      exact List.forall_mem_append.2 ⟨hdigits, by simpa using hdigit⟩
    · refine .of_isInteger (.whole hsign hfirst hdigits) ?_
      split at hnext
      · rename_i hp
        cases hnext
        exact .inl ⟨hp, rfl⟩
      · split at hnext
        · rename_i hmark
          cases hnext
          exact .inr ⟨hmark, rfl⟩
        · cases hnext
  | integer h htail =>
    obtain ⟨rfl, rfl⟩ | rfl | ⟨htail', -⟩ := htail.next hnext
    · cases htail
      exact .fraction (by simp)
    · exact .exponent
    · rw [List.append_assoc]
      exact .integer h htail'
  | float h htail hpart =>
    obtain ⟨rfl, -⟩ | rfl | ⟨htail', hpart'⟩ := htail.next hnext
    · exact absurd rfl hpart
    · exact .exponent
    · rw [List.append_assoc]
      exact .float h htail' hpart'
  | fraction h =>
    simp only [NumberPart.next?] at hnext
    split at hnext
    · cases hnext
      exact .fraction (List.mem_append_left _ h)
    · split at hnext
      · rename_i hmark
        cases hnext
        exact .float h (.mark hmark) (by decide)
      · cases hnext
  | exponent =>
    simp only [NumberPart.next?] at hnext
    split at hnext <;> cases hnext
    exact .exponent

/-! ## Numbers that end -/

theorem numberValue_of_isTail {tail : Text} (h : IsTail tail part) (t : Text) :
    Reader.numberValue t part =
      if (t.contains (.scalar '.') && t.getLast? != some (.scalar '.')) =
        true then .error .malformed
      else Reader.integer (t.takeWhile fun p => p == .scalar '-' || p.digit?.isSome) >>=
        fun _ => .error .malformed := by
  cases h <;> rfl

theorem IsInteger.point_not_mem (h : IsInteger t n) : CodePoint.scalar '.' ∉ t := by
  intro hp
  rcases h.mem hp with hp | hp
  · exact absurd hp (by decide)
  · exact absurd hp (by decide)

/-- A number that breaks off after its whole part is no float. -/
theorem IsTail.not_isFloat {tail : Text} (htail : IsTail tail part) (h : IsInteger integer n) :
    ((integer ++ tail).contains (.scalar '.') &&
      (integer ++ tail).getLast? != some (.scalar '.')) = false := by
  have hpoint := h.point_not_mem
  cases htail with
  | point => simp
  | mark hmark => rcases hmark with rfl | rfl <;> simp [hpoint]
  | markSign hmark hsign =>
    rcases hmark with rfl | rfl <;> rcases hsign with rfl | rfl <;> simp [hpoint]

theorem IsTail.takeWhile {tail : Text} (htail : IsTail tail part) (h : IsInteger integer n) :
    ((integer ++ tail).takeWhile fun p => p == .scalar '-' || p.digit?.isSome) = integer := by
  have hinteger : ∀ p ∈ integer, (p == CodePoint.scalar '-' || p.digit?.isSome) = true := by
    intro p hp
    rcases h.mem hp with rfl | hp
    · rfl
    · simp [hp]
  rw [List.takeWhile_append_of_pos hinteger]
  cases htail with
  | point => simp [CodePoint.digit?]
  | mark hmark => rcases hmark with rfl | rfl <;> simp [CodePoint.digit?]
  | markSign hmark hsign => rcases hmark with rfl | rfl <;> simp [CodePoint.digit?]

/-- The whole part of a number that breaks off after it counts as read. -/
theorem numberValue_integer {tail : Text} (h : IsInteger integer n) (htail : IsTail tail part) :
    Reader.numberValue (integer ++ tail) part = Reader.integer integer >>=
      fun _ => .error .malformed := by
  rw [numberValue_of_isTail htail, htail.not_isFloat h, htail.takeWhile h]
  rfl

/-- The whole part of a number does not count if a fraction follows it. -/
theorem numberValue_float {whole tail : Text} (h : CodePoint.scalar '.' ∈ whole)
    (htail : IsTail tail part) (hpart : part ≠ .point) :
    Reader.numberValue (whole ++ tail) part = .error .malformed := by
  rw [numberValue_of_isTail htail, if_pos]
  cases htail with
  | point => exact absurd rfl hpart
  | mark hmark => rcases hmark with rfl | rfl <;> simp [h]
  | markSign hmark hsign => rcases hmark with rfl | rfl <;> rcases hsign with rfl | rfl <;> simp [h]

theorem IsTail.ne_sign {tail : Text} (h : IsTail tail part) : part ≠ .sign := by
  cases h <;> decide

theorem IsTail.foldlM_next? {tail : Text} (h : IsTail tail part) :
    tail.foldlM NumberPart.next? .whole = some part := by
  cases h with
  | point => decide
  | mark hmark => rcases hmark with rfl | rfl <;> decide
  | markSign hmark hsign => rcases hmark with rfl | rfl <;> rcases hsign with rfl | rfl <;> decide

/-- Whether a number that is read up to a part does not go on with what comes after it. -/
def NumberPart.Stops (part : NumberPart) (after : Text) : Prop :=
  ∀ p rest, after = p :: rest → part.next? p = none

theorem not_goesOn_of_stops (h : NumberPart.Stops .whole after) : ¬ GoesOn after := by
  intro hgoes
  cases hgoes with
  | digit hp => simpa [NumberPart.next?, hp] using h _ _ rfl
  | fraction => exact absurd (h _ _ rfl) (by decide)
  | exponent hmark | signedExponent hmark =>
    rcases hmark with rfl | rfl <;> exact absurd (h _ _ rfl) (by decide)

theorem IsTail.not_goesOn {tail : Text} (htail : IsTail tail part) (h : part.Stops after) :
    ¬ GoesOn (tail ++ after) := by
  intro hgoes
  cases htail with
  | point =>
    cases hgoes with
    | digit hp => exact absurd hp (by decide)
    | fraction hp => simpa [NumberPart.next?, hp] using h _ _ rfl
    | exponent hmark | signedExponent hmark => exact absurd hmark (by decide)
  | mark hmark =>
    cases hgoes with
    | digit hp => rcases hmark with rfl | rfl <;> exact absurd hp (by decide)
    | fraction => exact absurd hmark (by decide)
    | exponent _ hp => simpa [NumberPart.next?, hp] using h _ _ rfl
    | signedExponent _ hsign => rcases hsign with rfl | rfl <;> exact absurd (h _ _ rfl) (by decide)
  | markSign hmark hsign =>
    cases hgoes with
    | digit hp => rcases hmark with rfl | rfl <;> exact absurd hp (by decide)
    | fraction => exact absurd hmark (by decide)
    | exponent _ hp => rcases hsign with rfl | rfl <;> exact absurd hp (by decide)
    | signedExponent _ _ hp => simpa [NumberPart.next?, hp] using h _ _ rfl

/-- A text that does not go on with an integer ends it, at once or after a piece that belongs to no
number. -/
theorem exists_stops_of_not_goesOn (h : ¬ GoesOn after) :
    NumberPart.Stops .whole after ∨
      ∃ tail rest part, after = tail ++ rest ∧ IsTail tail part ∧ part.Stops rest := by
  cases after with
  | nil => exact .inl nofun
  | cons p rest =>
    have hdigit : p.digit?.isSome = false := by
      rw [Bool.eq_false_iff]
      exact fun hp => h (.digit hp rest)
    by_cases hpoint : p = '.'
    · subst hpoint
      refine .inr ⟨['.'], rest, .point, rfl, .point, ?_⟩
      rintro q rest' rfl
      have hq : ¬ q.digit?.isSome = true := fun hq => h (.fraction hq rest')
      simp [NumberPart.next?, hq]
    · by_cases hmark : p = 'e' ∨ p = 'E'
      · right
        by_cases hsign : ∃ (sign : CodePoint) (rest' : Text),
            (sign = '+' ∨ sign = '-') ∧ rest = sign :: rest'
        · obtain ⟨sign, rest', hsign, rfl⟩ := hsign
          refine ⟨[p, sign], rest', .markSign, rfl, .markSign hmark hsign, ?_⟩
          rintro q rest'' rfl
          have hq : ¬ q.digit?.isSome = true := fun hq => h (.signedExponent hmark hsign hq rest'')
          simp [NumberPart.next?, hq]
        · refine ⟨[p], rest, .mark, rfl, .mark hmark, ?_⟩
          rintro q rest' rfl
          have hq : ¬ q.digit?.isSome = true := fun hq => h (.exponent hmark hq rest')
          have hq' : ¬ (q = '+' ∨ q = '-') := fun hq' => hsign ⟨q, rest', hq', rfl⟩
          simp [NumberPart.next?, hq, hq']
      · left
        rintro q rest' hq
        cases hq
        simp [NumberPart.next?, hdigit, hpoint, hmark]

/-! ## Reading up to a number -/

namespace Reader

variable {read : Text} {v : Json}

theorem mode_accept (r : Reader) (v : Json) : (r.accept v).mode = .between := by
  unfold Reader.accept
  split <;> rfl

theorem expectsValue_accept (r : Reader) (v : Json) : (r.accept v).expectsValue = false := by
  unfold Reader.accept
  split <;> rfl

theorem mode_acceptString (r : Reader) (t : Text) : (r.acceptString t).mode = .between := by
  unfold Reader.acceptString
  split
  · rfl
  · rfl
  · exact mode_accept r _

theorem mode_of_close (h : r.close p = .ok r') : r'.mode = .between := by
  unfold Reader.close at h
  split at h
  · split at h <;> cases h
    exact mode_accept _ _
  · split at h <;> cases h
    exact mode_accept _ _
  · cases h

theorem number_of_begins (h : r.Begins p r') (hr : r.mode = .between)
    (hr' : r'.mode = .number read part) :
    r.expectsValue = true ∧ part.Starts p ∧ read = [p] := by
  cases h with
  | space | value | name => cases hr.symm.trans hr'
  | string | array | object | word => cases hr'
  | close h => cases (mode_of_close h).symm.trans hr'
  | number h hstarts =>
    cases hr'
    exact ⟨h, hstarts, rfl⟩

/-- A number starts where a value is expected, or goes on. -/
theorem number_of_step (h : r.step p = .ok r') (hr' : r'.mode = .number read part) :
    ((r.mode = .between ∧ r.expectsValue = true) ∧ part.Starts p ∧ read = [p]) ∨
      ∃ read' part', r.mode = .number read' part' ∧ part'.next? p = some part ∧
        read = p :: read' := by
  cases steps_of_step h with
  | begins hmode h =>
    obtain ⟨hvalue, hstarts, hread⟩ := number_of_begins h hmode hr'
    exact .inl ⟨⟨hmode, hvalue⟩, hstarts, hread⟩
  | @ends _ v _ h =>
    have hvalue := (number_of_begins h (mode_accept r v) hr').1
    rw [expectsValue_accept] at hvalue
    cases hvalue
  | string => cases (mode_acceptString r _).symm.trans hr'
  | number hmode hnext =>
    cases hr'
    exact .inr ⟨_, _, hmode, hnext, rfl⟩
  | other hmode => exact absurd hr' (hmode _ _)

/-- A number that is being read stands at the end of what is read so far. -/
theorem exists_awaitsValue (h : t.foldlM step start = .ok r) (hmode : r.mode = .number read part) :
    ∃ before, t = before ++ read.reverse ∧ AwaitsValue before ∧ Spelled read.reverse part := by
  induction t using List.reverseRecOn generalizing r read part with
  | nil =>
    cases h
    cases hmode
  | append_singleton t p ih =>
    rw [List.foldlM_append] at h
    obtain ⟨r₁, hr₁, hstep⟩ := bind_eq_ok.1 h
    rw [List.foldlM_cons] at hstep
    obtain ⟨r₂, hstep, hr₂⟩ := bind_eq_ok.1 hstep
    cases hr₂
    rcases number_of_step hstep hmode with ⟨hvalue, hstarts, rfl⟩ | ⟨read', part', hr₁', hnext, rfl⟩
    · exact ⟨t, rfl, ⟨r₁, hr₁, hvalue⟩, .start hstarts⟩
    · obtain ⟨before, rfl, hbefore, hspelled⟩ := ih hr₁ hr₁'
      refine ⟨before, ?_, hbefore, ?_⟩
      · rw [List.reverse_cons, List.append_assoc]
      · rw [List.reverse_cons]
        exact hspelled.next hnext

/-! ## Faults -/

theorem exists_step_of_foldlM_eq_error (h : t.foldlM step r = .error e) :
    ∃ (before : Text) (p : CodePoint) (after : Text) (r' : Reader),
      t = before ++ p :: after ∧ before.foldlM step r = .ok r' ∧ r'.step p = .error e := by
  induction t generalizing r with
  | nil => cases h
  | cons p t ih =>
    rw [List.foldlM_cons] at h
    rcases bind_eq_error.1 h with h | ⟨r₁, hr₁, h⟩
    · exact ⟨[], p, t, r, rfl, rfl, h⟩
    · obtain ⟨before, q, after, r', rfl, hr', hq⟩ := ih h
      refine ⟨p :: before, q, after, r', rfl, ?_, hq⟩
      rw [List.foldlM_cons, hr₁]
      exact hr'

theorem endToken_eq_error (h : r.endToken = .error e) :
    e = .malformed ∨ ∃ read part, r.mode = .number read part ∧
      numberValue read.reverse part = .error e := by
  unfold Reader.endToken at h
  split at h
  · rename_i read part hmode
    rcases bind_eq_error.1 h with h | ⟨v, -, h⟩
    · exact .inr ⟨read, part, hmode, h⟩
    · cases h
  · split at h <;> cases h
    exact .inl rfl
  · cases h

theorem finish_eq_error (h : r.finish = .error e) :
    e = .malformed ∨ ∃ read part, r.mode = .number read part ∧
      numberValue read.reverse part = .error e := by
  unfold Reader.finish at h
  dsimp only at h
  split at h
  iterate 3
    rcases bind_eq_error.1 h with h | ⟨r', -, h⟩
    · exact endToken_eq_error h
    · split at h <;> cases h
      exact .inl rfl
  cases h
  exact .inl rfl

/-- A fault other than in the grammar is one of a number that ends. -/
theorem exists_number_of_read_eq_error (h : Json.read t = .error e) (he : e ≠ .malformed) :
    ∃ before after r read part, t = before ++ after ∧ before.foldlM step start = .ok r ∧
      r.mode = .number read part ∧ part.Stops after ∧ numberValue read.reverse part = .error e := by
  rcases bind_eq_error.1 h with h | ⟨r, hr, h⟩
  · obtain ⟨before, p, after, r, rfl, hr, hp⟩ := exists_step_of_foldlM_eq_error h
    obtain he' | ⟨read, part, hmode, hnext, hvalue⟩ := step_eq_error hp
    · exact absurd he' he
    · refine ⟨before, p :: after, r, read, part, rfl, hr, hmode, ?_, hvalue⟩
      rintro q rest hq
      cases hq
      exact hnext
  · obtain he' | ⟨read, part, hmode, hvalue⟩ := finish_eq_error h
    · exact absurd he' he
    · exact ⟨t, [], r, read, part, (List.append_nil t).symm, hr, hmode, nofun, hvalue⟩

/-- A number goes on with the characters that belong to it. -/
theorem foldlM_number {read : Text} (h : t.foldlM NumberPart.next? part = some part')
    (hmode : r.mode = .number read part) :
    t.foldlM step r = .ok { r with mode := .number (t.reverse ++ read) part' } := by
  induction t generalizing r read part with
  | nil =>
    cases h
    obtain ⟨stack, expectation, mode⟩ := r
    cases hmode
    rfl
  | cons p t ih =>
    rw [List.foldlM_cons] at h
    obtain ⟨next, hnext, h⟩ := Option.bind_eq_some_iff.1 h
    have hstep : r.step p = .ok { r with mode := .number (p :: read) next } := by
      rw [step, hmode]
      dsimp only
      rw [hnext]
    rw [List.foldlM_cons, hstep]
    refine (ih h rfl).trans ?_
    simp

/-- A number that ends where it is faulty is a fault. -/
theorem finish_number_eq_error {read : Text} (hmode : r.mode = .number read part)
    (hpart : part ≠ .sign) (hstops : part.Stops t)
    (hvalue : numberValue read.reverse part = .error e) :
    (t.foldlM step r >>= finish) = .error e := by
  have hend : r.endToken = .error e := by
    rw [endToken, hmode]
    exact congrArg (· >>= _) hvalue
  cases t with
  | nil =>
    show r.finish = .error e
    rw [finish, hmode]
    exact congrArg (· >>= _) hend
  | cons p t =>
    have hstep : r.step p = .error e := by
      rw [step, hmode]
      dsimp only
      rw [hstops p t rfl]
      dsimp only
      rw [if_neg (by simp [hpart]), hend]
      rfl
    rw [List.foldlM_cons, hstep]
    rfl

/-- The first character of an integer that is not zero starts a number. -/
theorem begin_digit (hvalue : r.expectsValue = true) (hp : p.digit?.isSome = true)
    (hzero : p ≠ '0') :
    r.begin p = .ok { r with mode := .number [p] .whole } := by
  have hne : ∀ c : Char, CodePoint.digit? c = none → p ≠ c := by
    rintro c hc rfl
    rw [hc] at hp
    cases hp
  have hspace : isSpace p = false := by
    simp [isSpace, hne ' ' (by decide), hne '\t' (by decide), hne '\n' (by decide),
      hne '\r' (by decide)]
  have hclose : ¬ (p = ']' ∨ p = '\x7d') := not_or.2 ⟨hne ']' (by decide), hne '\x7d' (by decide)⟩
  rw [Reader.begin.eq_def, hspace, if_neg (by simp), if_neg (hne '"' (by decide)),
    if_neg (fun h => hne '[' (by decide) h.1), if_neg (fun h => hne '\x7b' (by decide) h.1),
    if_neg (fun h => hclose h.1), if_neg (hne ',' (by decide)), if_neg (hne ':' (by decide)),
    if_neg (by simp [hvalue]), if_neg (hne '-' (by decide)), if_neg hzero, if_pos hp]

theorem begin_minus (hvalue : r.expectsValue = true) :
    r.begin '-' = .ok { r with mode := .number ['-'] .sign } := by
  simp [Reader.begin, isSpace, hvalue]

theorem foldlM_next?_digits {digits : Text} (h : ∀ p ∈ digits, p.digit?.isSome = true) :
    digits.foldlM NumberPart.next? .whole = some .whole := by
  induction digits with
  | nil => rfl
  | cons p digits ih =>
    obtain ⟨hp, hdigits⟩ := List.forall_mem_cons.1 h
    rw [List.foldlM_cons, show NumberPart.next? .whole p = some .whole
      by simp [NumberPart.next?, hp]]
    exact ih hdigits

/-- An integer that does not start with a zero is read as a whole number. -/
theorem foldlM_integer {sign digits : Text} (hmode : r.mode = .between)
    (hvalue : r.expectsValue = true) (hsign : IsSign sign) (hzero : p ≠ '0')
    (hdigits : ∀ q ∈ p :: digits, q.digit?.isSome = true) :
    (sign ++ p :: digits).foldlM step r =
      .ok { r with mode := .number (sign ++ p :: digits).reverse .whole } := by
  obtain ⟨hp, hdigits⟩ := List.forall_mem_cons.1 hdigits
  have hrest := foldlM_next?_digits hdigits
  cases hsign with
  | none =>
    have hstep : r.step p = .ok { r with mode := .number [p] .whole } := by
      rw [step, hmode]
      exact begin_digit hvalue hp hzero
    rw [List.nil_append, List.foldlM_cons, hstep]
    refine (foldlM_number hrest rfl).trans ?_
    simp
  | minus =>
    have hstep : r.step '-' = .ok { r with mode := .number ['-'] .sign } := by
      rw [step, hmode]
      exact begin_minus hvalue
    have hnext : (p :: digits).foldlM NumberPart.next? .sign = some .whole := by
      rw [List.foldlM_cons, show NumberPart.next? .sign p = some .whole
        by simp [NumberPart.next?, hzero, hp]]
      exact hrest
    rw [List.singleton_append, List.foldlM_cons, hstep]
    refine (foldlM_number hnext rfl).trans ?_
    simp

end Reader

/-- The long integer that a number was read for. -/
theorem Spelled.exists_integer {f : Numeral.Fault} (h : Spelled t part)
    (hvalue : Reader.numberValue t part = .error (.numeral f)) (hstops : part.Stops after) :
    ∃ integer tail n, t = integer ++ tail ∧ IsInteger integer n ∧ Numeral.digitLimit < n ∧
      ¬ GoesOn (tail ++ after) := by
  cases h with
  | sign => cases hvalue
  | zero hsign =>
    have hlong := ((IsInteger.zero hsign).integer_eq_error_iff.1 hvalue).1
    exact absurd hlong (by decide)
  | whole hsign hfirst hdigits =>
    have hinteger := IsInteger.whole hsign hfirst hdigits
    have hlong := (hinteger.integer_eq_error_iff.1 hvalue).1
    exact ⟨_, [], _, (List.append_nil _).symm, hinteger, hlong, not_goesOn_of_stops hstops⟩
  | integer hinteger htail =>
    rw [numberValue_integer hinteger htail] at hvalue
    rcases bind_eq_error.1 hvalue with hvalue | ⟨v, -, hvalue⟩
    · have hlong := (hinteger.integer_eq_error_iff.1 hvalue).1
      exact ⟨_, _, _, rfl, hinteger, hlong, htail.not_goesOn hstops⟩
    · cases hvalue
  | float h htail hpart =>
    rw [numberValue_float h htail hpart] at hvalue
    cases hvalue
  | fraction h | exponent =>
    simp only [Reader.numberValue] at hvalue
    split at hvalue <;> cases hvalue

theorem meetsLongInteger_of_read_eq_error {f : Numeral.Fault} (h : read t = .error (.numeral f)) :
    MeetsLongInteger t := by
  obtain ⟨before, after, r, read, part, rfl, hr, hmode, hstops, hvalue⟩ :=
    Reader.exists_number_of_read_eq_error h (by simp)
  obtain ⟨before, rfl, hbefore, hspelled⟩ := Reader.exists_awaitsValue hr hmode
  obtain ⟨integer, tail, n, hread, hinteger, hlong, hgoes⟩ := hspelled.exists_integer hvalue hstops
  refine ⟨before, integer, tail ++ after, n, ?_, hbefore, hinteger, hlong, hgoes⟩
  rw [hread]
  simp

theorem exists_read_eq_error_of_meetsLongInteger (h : MeetsLongInteger t) :
    ∃ f, read t = .error (.numeral f) := by
  obtain ⟨before, integer, after, n, rfl, ⟨r, hr, hmode, hvalue⟩, hinteger, hlong, hgoes⟩ := h
  have herror := hinteger.integer_eq_error_iff.2 ⟨hlong, rfl⟩
  refine ⟨.tooLongToRead n, ?_⟩
  rw [read, List.foldlM_append, List.foldlM_append, hr]
  have hdigits := hinteger
  cases hdigits with
  | zero => exact absurd hlong (by decide)
  | whole hsign hfirst hdigits =>
    show ((List.foldlM Reader.step r (_ ++ _) >>= _) >>= Reader.finish) = _
    rw [Reader.foldlM_integer hmode hvalue hsign hfirst hdigits]
    show (after.foldlM Reader.step _ >>= Reader.finish) = _
    rcases exists_stops_of_not_goesOn hgoes with hstops | ⟨tail, rest, part, rfl, htail, hstops⟩
    · refine Reader.finish_number_eq_error rfl (by decide) hstops ?_
      rw [List.reverse_reverse]
      exact herror
    · rw [List.foldlM_append, Reader.foldlM_number htail.foldlM_next? rfl]
      refine Reader.finish_number_eq_error rfl htail.ne_sign hstops ?_
      rw [List.reverse_append, List.reverse_reverse, List.reverse_reverse,
        numberValue_integer hinteger htail, herror]
      rfl

/-- **Reading fails at a number exactly if it comes to an integer with too many digits.** -/
theorem read_eq_numeral_iff : (∃ f, read t = .error (.numeral f)) ↔ MeetsLongInteger t :=
  ⟨fun ⟨_, h⟩ => meetsLongInteger_of_read_eq_error h, exists_read_eq_error_of_meetsLongInteger⟩

end ApiTrace.Json
