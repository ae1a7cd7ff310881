import ApiTrace.Proofs.Outcome
import ApiTrace.Text.Utf8

/-!
# Bytes that are UTF-8

Decoding reads exactly the bytes that encoding writes: bytes are decoded to a text exactly if they
are the encoding of that text (`Utf8.decode_eq_ok_iff`). Both sides are compared with one list of
the forms that a character can have (`Utf8.Spells`).
-/

namespace ApiTrace.Utf8

variable {a b : UInt8} {bytes rest : List UInt8} {position n : Nat} {t : Text}

/-! ## Characters -/

/-- Whether a byte can come after the first one. -/
def IsTail (b : UInt8) : Prop := 0x80 ≤ b.toNat ∧ b.toNat < 0xC0

/-- The bytes that spell a number. After some first bytes not every second byte is good: it would
spell a number that has a shorter form, a surrogate, or a number that is too great. -/
inductive Spells : List UInt8 → Nat → Prop where
  | one {a : UInt8} (ha : a.toNat < 0x80) : Spells [a] a.toNat
  | two {a b : UInt8} (ha : 0xC2 ≤ a.toNat) (ha' : a.toNat < 0xE0) (hb : IsTail b) :
      Spells [a, b] (a.toNat % 0x20 * 0x40 + b.toNat % 0x40)
  | three {a b c : UInt8} (ha : 0xE0 ≤ a.toNat) (ha' : a.toNat < 0xF0) (hb : IsTail b)
      (hc : IsTail c)
      (short : a.toNat = 0xE0 → 0xA0 ≤ b.toNat) (surrogate : a.toNat = 0xED → b.toNat < 0xA0) :
      Spells [a, b, c] ((a.toNat % 0x10 * 0x40 + b.toNat % 0x40) * 0x40 + c.toNat % 0x40)
  | four {a b c d : UInt8} (ha : 0xF0 ≤ a.toNat) (ha' : a.toNat < 0xF5) (hb : IsTail b)
      (hc : IsTail c)
      (hd : IsTail d) (short : a.toNat = 0xF0 → 0x90 ≤ b.toNat) (great : a.toNat = 0xF4 →
        b.toNat < 0x90) :
      Spells [a, b, c, d]
        (((a.toNat % 0x08 * 0x40 + b.toNat % 0x40) * 0x40 + c.toNat % 0x40) * 0x40 + d.toNat % 0x40)

theorem Spells.isValidChar (h : Spells bytes n) : n.isValidChar := by
  show n < 0xD800 ∨ 0xDFFF < n ∧ n < 0x110000
  cases h with
  | one ha => omega
  | two ha ha' hb =>
    obtain ⟨hb, hb'⟩ := hb
    omega
  | three ha ha' hb hc short surrogate =>
    obtain ⟨hb, hb'⟩ := hb
    omega
  | four ha ha' hb hc hd short great =>
    obtain ⟨hb, hb'⟩ := hb
    omega

theorem Spells.length_pos (h : Spells bytes n) : 0 < bytes.length := by
  cases h <;> simp

theorem toUInt8_eq (h : n = a.toNat) : n.toUInt8 = a := by
  rw [h]
  exact UInt8.ofNat_toNat

/-- A character is encoded as the bytes that spell its number. -/
theorem Spells.encodeChar {c : Char} (h : Spells bytes c.toNat) : encodeChar c = bytes := by
  unfold Utf8.encodeChar
  generalize hn : c.toNat = n at h
  dsimp only
  cases h with
  | one ha => rw [if_pos ha, toUInt8_eq rfl]
  | two ha ha' hb =>
    obtain ⟨hb, hb'⟩ := hb
    rw [if_neg (by omega), if_pos (by omega)]
    simp only [List.cons.injEq, and_true]
    exact ⟨toUInt8_eq (by omega), toUInt8_eq (by omega)⟩
  | three ha ha' hb hc short surrogate =>
    obtain ⟨hb, hb'⟩ := hb
    obtain ⟨hc, hc'⟩ := hc
    rw [if_neg (by omega), if_neg (by omega), if_pos (by omega)]
    simp only [List.cons.injEq, and_true]
    exact ⟨toUInt8_eq (by omega), toUInt8_eq (by omega), toUInt8_eq (by omega)⟩
  | four ha ha' hb hc hd short great =>
    obtain ⟨hb, hb'⟩ := hb
    obtain ⟨hc, hc'⟩ := hc
    obtain ⟨hd, hd'⟩ := hd
    rw [if_neg (by omega), if_neg (by omega), if_neg (by omega)]
    simp only [List.cons.injEq, and_true]
    exact ⟨toUInt8_eq (by omega), toUInt8_eq (by omega), toUInt8_eq (by omega),
      toUInt8_eq (by omega)⟩

theorem toNat_toUInt8 (h : n < 0x100) : n.toUInt8.toNat = n := UInt8.toNat_ofNat_of_lt' h

theorem Spells.of_eq {m : Nat} (h : Spells bytes m) (hm : m = n) : Spells bytes n := hm ▸ h

theorem spells_encodeChar (c : Char) : Spells (encodeChar c) c.toNat := by
  have hvalid : c.toNat < 0xD800 ∨ 0xDFFF < c.toNat ∧ c.toNat < 0x110000 := c.valid
  unfold Utf8.encodeChar
  generalize c.toNat = n at hvalid
  dsimp only
  split
  · have ha : n.toUInt8.toNat = n := toNat_toUInt8 (by omega)
    exact .of_eq (.one (by omega)) (by omega)
  · have hlast : (0x80 + n % 0x40).toUInt8.toNat = 0x80 + n % 0x40 := toNat_toUInt8 (by omega)
    split
    · have ha : (0xC0 + n / 0x40).toUInt8.toNat = 0xC0 + n / 0x40 := toNat_toUInt8 (by omega)
      exact .of_eq (.two (by omega) (by omega) ⟨by omega, by omega⟩) (by omega)
    · have hmiddle : (0x80 + n / 0x40 % 0x40).toUInt8.toNat = 0x80 + n / 0x40 % 0x40 :=
        toNat_toUInt8 (by omega)
      split
      · have ha : (0xE0 + n / 0x1000).toUInt8.toNat = 0xE0 + n / 0x1000 := toNat_toUInt8 (by omega)
        exact .of_eq (.three (by omega) (by omega) ⟨by omega, by omega⟩
          ⟨by omega, by omega⟩ (by omega)
          (by omega)) (by omega)
      · have ha : (0xF0 + n / 0x40000).toUInt8.toNat = 0xF0 + n / 0x40000 :=
          toNat_toUInt8 (by omega)
        have hb : (0x80 + n / 0x1000 % 0x40).toUInt8.toNat = 0x80 + n / 0x1000 % 0x40 :=
          toNat_toUInt8 (by omega)
        exact .of_eq (.four (by omega) (by omega) ⟨by omega, by omega⟩ ⟨by omega, by omega⟩
          ⟨by omega, by omega⟩ (by omega) (by omega)) (by omega)

/-! ## Decoding -/

theorem isContinuation_iff : isContinuation b = true ↔ IsTail b := by
  simp [isContinuation, IsTail, UInt8.le_iff_toNat_le, UInt8.lt_iff_toNat_lt]

theorem secondFits_iff : secondFits a b = true ↔ IsTail b ∧
    (a.toNat = 0xE0 → 0xA0 ≤ b.toNat) ∧ (a.toNat = 0xED → b.toNat < 0xA0) ∧
    (a.toNat = 0xF0 → 0x90 ≤ b.toNat) ∧ (a.toNat = 0xF4 → b.toNat < 0x90) := by
  simp only [secondFits, Bool.and_eq_true, isContinuation_iff, Bool.not_eq_true',
    Bool.and_eq_false_imp,
    beq_iff_eq, decide_eq_false_iff_not, ← UInt8.toNat_inj, UInt8.le_iff_toNat_le,
    UInt8.lt_iff_toNat_lt, and_assoc]
  simp

/-- How a character of more than one byte starts. -/
theorem start?_eq_some_iff {p : Pending} :
    Pending.start? a = some p ↔
      (0xC2 ≤ a.toNat ∧ a.toNat < 0xE0) ∧ p = ⟨[a], a.toNat % 0x20, 1⟩ ∨
      (0xE0 ≤ a.toNat ∧ a.toNat < 0xF0) ∧ p = ⟨[a], a.toNat % 0x10, 2⟩ ∨
      (0xF0 ≤ a.toNat ∧ a.toNat < 0xF5) ∧ p = ⟨[a], a.toNat % 0x08, 3⟩ := by
  have hC2 : a < 0xC2 ↔ a.toNat < 0xC2 := UInt8.lt_iff_toNat_lt
  have hE0 : a < 0xE0 ↔ a.toNat < 0xE0 := UInt8.lt_iff_toNat_lt
  have hF0 : a < 0xF0 ↔ a.toNat < 0xF0 := UInt8.lt_iff_toNat_lt
  have hF5 : a < 0xF5 ↔ a.toNat < 0xF5 := UInt8.lt_iff_toNat_lt
  simp only [Pending.start?, hC2, hE0, hF0, hF5]
  grind

theorem decodeFrom_start {p : Pending} (h : Pending.start? a = some p) (position : Nat)
    (rest : List UInt8) :
    decodeFrom position none (a :: rest) = decodeFrom position (some p) rest := by
  have hascii : ¬ a < 0x80 := by
    have h80 : a < 0x80 ↔ a.toNat < 0x80 := UInt8.lt_iff_toNat_lt
    have hcases := start?_eq_some_iff.1 h
    rw [h80]
    omega
  rw [decodeFrom, if_neg hascii, h]

/-- A byte that fits ends the character or is added to it. -/
theorem decodeFrom_pending (p : Pending) (h : p.fits b = true) (position : Nat)
    (rest : List UInt8) :
    decodeFrom position (some p) (b :: rest) =
      if p.missing - 1 = 0 then
        (decodeFrom (position + p.bytes.length + 1) none rest).map
          (.scalar (Char.ofNat (p.value * 0x40 + b.toNat % 0x40)) :: ·)
      else decodeFrom position (some (p.push b)) rest := by
  rw [decodeFrom, h]
  simp [Pending.push, Nat.add_assoc]

/-- A character that is being read goes on. -/
theorem exists_fits_of_decodeFrom {p : Pending} (h : decodeFrom position (some p) bytes = .ok t) :
    ∃ b rest, bytes = b :: rest ∧ p.fits b = true := by
  cases bytes with
  | nil => cases h
  | cons b rest =>
    refine ⟨b, rest, rfl, ?_⟩
    by_contra hfits
    rw [decodeFrom, if_pos (by simpa using hfits)] at h
    cases h

/-- Bytes that spell a character are decoded to it. -/
theorem Spells.decodeFrom (h : Spells bytes n) (position : Nat) (rest : List UInt8) :
    decodeFrom position none (bytes ++ rest) =
      (decodeFrom (position + bytes.length) none rest).map (.scalar (Char.ofNat n) :: ·) := by
  cases h with
  | one ha =>
    rw [List.singleton_append, Utf8.decodeFrom, if_pos (UInt8.lt_iff_toNat_lt.2 ha)]
    rfl
  | @two a b ha ha' hb =>
    have hfits : secondFits a b = true :=
      secondFits_iff.2 ⟨hb, by omega, by omega, by omega, by omega⟩
    show Utf8.decodeFrom position none (a :: b :: rest) = _
    rw [decodeFrom_start (start?_eq_some_iff.2 (.inl ⟨⟨ha, ha'⟩, rfl⟩))]
    exact decodeFrom_pending ⟨[a], _, 1⟩ hfits position rest
  | @three a b c ha ha' hb hc short surrogate =>
    have hfits : secondFits a b = true :=
      secondFits_iff.2 ⟨hb, short, surrogate, by omega, by omega⟩
    show Utf8.decodeFrom position none (a :: b :: c :: rest) = _
    rw [decodeFrom_start (start?_eq_some_iff.2 (.inr (.inl ⟨⟨ha, ha'⟩, rfl⟩)))]
    refine Eq.trans (decodeFrom_pending ⟨[a], _, 2⟩ hfits position (c :: rest)) ?_
    exact decodeFrom_pending ⟨[a, b], _, 1⟩ (isContinuation_iff.2 hc) position rest
  | @four a b c d ha ha' hb hc hd short great =>
    have hfits : secondFits a b = true := secondFits_iff.2 ⟨hb, by omega, by omega, short, great⟩
    show Utf8.decodeFrom position none (a :: b :: c :: d :: rest) = _
    rw [decodeFrom_start (start?_eq_some_iff.2 (.inr (.inr ⟨⟨ha, ha'⟩, rfl⟩)))]
    refine Eq.trans (decodeFrom_pending ⟨[a], _, 3⟩ hfits position (c :: d :: rest)) ?_
    refine Eq.trans (decodeFrom_pending ⟨[a, b], _, 2⟩ (isContinuation_iff.2 hc) position
      (d :: rest)) ?_
    exact decodeFrom_pending ⟨[a, b, c], _, 1⟩ (isContinuation_iff.2 hd) position rest

/-- What is decoded starts with bytes that spell a character. -/
theorem exists_spells_of_decodeFrom (h : decodeFrom position none (a :: bytes) = .ok t) :
    ∃ char n rest, Spells char n ∧ a :: bytes = char ++ rest := by
  by_cases hascii : a.toNat < 0x80
  · exact ⟨[a], a.toNat, bytes, .one hascii, rfl⟩
  · cases hstart : Pending.start? a with
    | none =>
      rw [decodeFrom, if_neg (fun h' => hascii (UInt8.lt_iff_toNat_lt.1 h')), hstart] at h
      cases h
    | some p =>
      rw [decodeFrom_start hstart] at h
      obtain ⟨b, bytes, rfl, hb⟩ := exists_fits_of_decodeFrom h
      obtain ⟨⟨ha, ha'⟩, rfl⟩ | ⟨⟨ha, ha'⟩, rfl⟩ | ⟨⟨ha, ha'⟩, rfl⟩ := start?_eq_some_iff.1 hstart
      · exact ⟨[a, b], _, bytes, .two ha ha' (secondFits_iff.1 hb).1, rfl⟩
      · obtain ⟨hb', short, surrogate, -, -⟩ := secondFits_iff.1 hb
        rw [decodeFrom_pending _ hb] at h
        obtain ⟨c, bytes, rfl, hc⟩ := exists_fits_of_decodeFrom h
        exact ⟨[a, b, c], _, bytes, .three ha ha' hb' (isContinuation_iff.1 hc) short surrogate,
          rfl⟩
      · obtain ⟨hb', -, -, short, great⟩ := secondFits_iff.1 hb
        rw [decodeFrom_pending _ hb] at h
        obtain ⟨c, bytes, rfl, hc⟩ := exists_fits_of_decodeFrom h
        replace h := (decodeFrom_pending _ hc position bytes).symm.trans h
        obtain ⟨d, bytes, rfl, hd⟩ := exists_fits_of_decodeFrom h
        exact ⟨[a, b, c, d], _, bytes,
          .four ha ha' hb' (isContinuation_iff.1 hc) (isContinuation_iff.1 hd) short great, rfl⟩

/-! ## Texts -/

theorem decodeFrom_of_encode? (h : encode? t = some bytes) (position : Nat) :
    decodeFrom position none bytes = .ok t := by
  induction t generalizing bytes position with
  | nil =>
    cases h
    rfl
  | cons p t ih =>
    cases p with
    | surrogate => cases h
    | scalar c =>
      obtain ⟨rest, hrest, rfl⟩ := Option.map_eq_some_iff.1 h
      rw [(spells_encodeChar c).decodeFrom, ih hrest, Char.ofNat_toNat]
      rfl

theorem encode?_of_decodeFrom (h : decodeFrom position none bytes = .ok t) :
    encode? t = some bytes := by
  induction hlength : bytes.length using Nat.strongRecOn generalizing bytes position t with
  | _ length ih =>
    cases bytes with
    | nil =>
      cases h
      rfl
    | cons a bytes =>
      obtain ⟨char, n, rest, hchar, hbytes⟩ := exists_spells_of_decodeFrom h
      rw [hbytes, hchar.decodeFrom] at h
      have hlt : rest.length < length := by
        rw [← hlength, hbytes, List.length_append]
        exact Nat.lt_add_of_pos_left hchar.length_pos
      cases hrest : decodeFrom (position + char.length) none rest with
      | error f =>
        rw [hrest] at h
        cases h
      | ok text =>
        rw [hrest] at h
        cases h
        have hvalue : (Char.ofNat n).toNat = n := by
          rw [Char.ofNat, dif_pos hchar.isValidChar]
          exact UInt32.toNat_ofNatLT ..
        rw [encode?, ih rest.length hlt hrest rfl, hbytes, Spells.encodeChar (hvalue ▸ hchar)]
        rfl

/-- **Bytes are decoded to a text exactly if they are its encoding.** -/
theorem decode_eq_ok_iff : decode bytes = .ok t ↔ encode? t = some bytes :=
  ⟨encode?_of_decodeFrom, fun h => decodeFrom_of_encode? h 0⟩

end ApiTrace.Utf8
