import ApiTrace.Json.Reader
import ApiTrace.Proofs.Outcome

/-!
# What the reader of documents can do

`Json.Reader.step` reads one character. All that it can do then is said by `Json.Reader.Steps`
(`Json.Reader.steps_of_step`), and all that it can fail with by `Json.Reader.step_eq_error`. What
holds of every reader that comes to an answer is proved from these, without another look at the
definition.
-/

namespace ApiTrace.Json

/-- The part of a number that a character starts. -/
inductive NumberPart.Starts : CodePoint → NumberPart → Prop where
  | sign : Starts '-' .sign
  | zero : Starts '0' .zero
  | whole {p : CodePoint} (h : p.digit?.isSome = true) (hzero : p ≠ '0') : Starts p .whole

namespace Reader

/-- What the character `p` can do to a reader that is not inside a token. -/
inductive Begins (r : Reader) (p : CodePoint) : Reader → Prop where
  | space : Begins r p r
  | string : Begins r p { r with mode := .string [] }
  | array (h : r.expectsValue = true) : Begins r p ⟨.array [] :: r.stack, .valueOrClose, .between⟩
  | object (h : r.expectsValue = true) : Begins r p ⟨.object [] :: r.stack, .nameOrClose, .between⟩
  | close {r' : Reader} (h : r.close p = .ok r') : Begins r p r'
  | value : Begins r p { r with expectation := .value }
  | name : Begins r p { r with expectation := .name }
  | number {part : NumberPart} (h : r.expectsValue = true) (hstarts : part.Starts p) :
      Begins r p { r with mode := .number [p] part }
  | word (h : r.expectsValue = true) : Begins r p { r with mode := .word [p] }

/-- What the character `p` can do to a reader: it starts a token, goes on with one, or ends one that
it does not belong to and starts the next. -/
inductive Steps (r : Reader) (p : CodePoint) : Reader → Prop where
  | begins {r' : Reader} (hmode : r.mode = .between) (h : r.Begins p r') : Steps r p r'
  | ends {r' : Reader} {v : Json} (hend : r.endToken = .ok (r.accept v))
      (h : (r.accept v).Begins p r') :
      Steps r p r'
  | string {read : Text} (hmode : r.mode = .string read) : Steps r p (r.acceptString read.reverse)
  | number {read : Text} {part next : NumberPart} (hmode : r.mode = .number read part)
      (hnext : part.next? p = some next) : Steps r p { r with mode := .number (p :: read) next }
  | other {mode : Mode} (hmode : ∀ read part, mode ≠ .number read part) : Steps r p { r with mode }

variable {r r' : Reader} {p : CodePoint} {e : ReadFault}

theorem close_eq_error (h : r.close p = .error e) : e = .malformed := by
  unfold Reader.close at h
  split at h
  · split at h <;> cases h
    rfl
  · split at h <;> cases h
    rfl
  · cases h
    rfl

/-- What starting a token comes to. -/
theorem begin_cases (r : Reader) (p : CodePoint) :
    (∃ r', r.begin p = .ok r' ∧ r.Begins p r') ∨ r.begin p = .error .malformed := by
  rw [Reader.begin.eq_def]
  by_cases hspace : isSpace p = true
  · rw [if_pos hspace]
    exact .inl ⟨_, rfl, .space⟩
  rw [if_neg hspace]
  by_cases hquote : p = '"'
  · rw [if_pos hquote]
    split
    iterate 4 exact .inl ⟨_, rfl, .string⟩
    exact .inr rfl
  rw [if_neg hquote]
  by_cases harray : p = '[' ∧ r.expectsValue = true
  · rw [if_pos harray]
    exact .inl ⟨_, rfl, .array harray.2⟩
  rw [if_neg harray]
  by_cases hobject : p = '\x7b' ∧ r.expectsValue = true
  · rw [if_pos hobject]
    exact .inl ⟨_, rfl, .object hobject.2⟩
  rw [if_neg hobject]
  by_cases hclose : (p = ']' ∨ p = '\x7d') ∧ r.mayClose = true
  · rw [if_pos hclose]
    cases h : r.close p with
    | ok r' => exact .inl ⟨r', rfl, .close h⟩
    | error e => exact .inr (congrArg _ (close_eq_error h))
  rw [if_neg hclose]
  by_cases hcomma : p = ','
  · rw [if_pos hcomma]
    split
    · exact .inl ⟨_, rfl, .value⟩
    · exact .inl ⟨_, rfl, .name⟩
    · exact .inr rfl
  rw [if_neg hcomma]
  by_cases hcolon : p = ':'
  · rw [if_pos hcolon]
    split
    · exact .inl ⟨_, rfl, .value⟩
    · exact .inr rfl
  rw [if_neg hcolon]
  -- What is left starts a number or a word.
  by_cases hvalue : r.expectsValue = true
  · rw [if_neg (by simp [hvalue])]
    by_cases hsign : p = '-'
    · rw [if_pos hsign]
      exact .inl ⟨_, rfl, .number hvalue (hsign ▸ .sign)⟩
    rw [if_neg hsign]
    by_cases hzero : p = '0'
    · rw [if_pos hzero]
      exact .inl ⟨_, rfl, .number hvalue (hzero ▸ .zero)⟩
    rw [if_neg hzero]
    by_cases hdigit : p.digit?.isSome = true
    · rw [if_pos hdigit]
      exact .inl ⟨_, rfl, .number hvalue (.whole hdigit hzero)⟩
    rw [if_neg hdigit]
    split
    · split
      · exact .inl ⟨_, rfl, .word hvalue⟩
      · exact .inr rfl
    · exact .inr rfl
  · rw [if_pos (by simpa using hvalue)]
    exact .inr rfl

/-- What reading a character comes to. Only a number that ends can fail in another way than by
breaking the grammar. -/
theorem step_cases (r : Reader) (p : CodePoint) :
    (∃ r', r.step p = .ok r' ∧ r.Steps p r') ∨ r.step p = .error .malformed ∨
      ∃ read part e, r.mode = .number read part ∧ part.next? p = none ∧
        numberValue read.reverse part = .error e ∧ r.step p = .error e := by
  rw [Reader.step.eq_def]
  cases hmode : r.mode with
  | between =>
    dsimp only
    rcases begin_cases r p with ⟨r', h, hbegins⟩ | h
    · exact .inl ⟨r', h, .begins hmode hbegins⟩
    · exact .inr (.inl h)
  | string read =>
    dsimp only
    split
    · exact .inl ⟨_, rfl, .string hmode⟩
    · split
      · exact .inl ⟨_, rfl, .other (by simp)⟩
      · split
        · exact .inr (.inl rfl)
        · exact .inl ⟨_, rfl, .other (by simp)⟩
  | escape read =>
    dsimp only
    split
    · exact .inl ⟨_, rfl, .other (by simp)⟩
    · split
      · exact .inl ⟨_, rfl, .other (by simp)⟩
      · exact .inr (.inl rfl)
  | unicode read value missing =>
    dsimp only
    split
    · exact .inr (.inl rfl)
    · split
      · exact .inl ⟨_, rfl, .other (by simp)⟩
      · exact .inl ⟨_, rfl, .other (by simp)⟩
  | number read part =>
    dsimp only
    split
    · rename_i hnext
      exact .inl ⟨_, rfl, .number hmode hnext⟩
    · rename_i hnext
      split
      · exact .inl ⟨_, rfl, .other (by simp)⟩
      · cases hvalue : numberValue read.reverse part with
        | error e =>
          have hend : r.endToken = .error e := by
            rw [endToken, hmode]
            exact congrArg (· >>= _) hvalue
          exact .inr (.inr ⟨read, part, e, rfl, hnext, hvalue, by rw [hend]; rfl⟩)
        | ok v =>
          have hend : r.endToken = .ok (r.accept v) := by
            rw [endToken, hmode]
            exact congrArg (· >>= _) hvalue
          rw [hend]
          rcases begin_cases (r.accept v) p with ⟨r', h, hbegins⟩ | h
          · exact .inl ⟨r', h, .ends hend hbegins⟩
          · exact .inr (.inl h)
  | word read =>
    cases p with
    | surrogate => exact .inr (.inl rfl)
    | scalar c =>
      dsimp only
      split
      · exact .inl ⟨_, rfl, .other (by simp)⟩
      · cases hvalue : wordValue? read.reverse with
        | none =>
          have hend : r.endToken = .error .malformed := by
            rw [endToken, hmode]
            dsimp only
            rw [hvalue]
          exact .inr (.inl (by rw [hend]; rfl))
        | some v =>
          have hend : r.endToken = .ok (r.accept v) := by
            rw [endToken, hmode]
            dsimp only
            rw [hvalue]
          rw [hend]
          rcases begin_cases (r.accept v) (.scalar c) with ⟨r', h, hbegins⟩ | h
          · exact .inl ⟨r', h, .ends hend hbegins⟩
          · exact .inr (.inl h)

theorem steps_of_step (h : r.step p = .ok r') : r.Steps p r' := by
  rcases step_cases r p with ⟨r₁, hr₁, hsteps⟩ | hr₁ | ⟨_, _, _, _, _, _, hr₁⟩
  · cases hr₁.symm.trans h
    exact hsteps
  · cases hr₁.symm.trans h
  · cases hr₁.symm.trans h

theorem step_eq_error (h : r.step p = .error e) :
    e = .malformed ∨ ∃ read part, r.mode = .number read part ∧ part.next? p = none ∧
      numberValue read.reverse part = .error e := by
  rcases step_cases r p with ⟨r₁, hr₁, -⟩ | hr₁ | ⟨read, part, e', hmode, hnext, hvalue, hr₁⟩
  · cases hr₁.symm.trans h
  · cases hr₁.symm.trans h
    exact .inl rfl
  · cases hr₁.symm.trans h
    exact .inr ⟨read, part, hmode, hnext, hvalue⟩

end Reader

end ApiTrace.Json
