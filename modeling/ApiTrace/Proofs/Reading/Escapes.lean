import ApiTrace.Proofs.Outcome
import ApiTrace.Proofs.Text.Digits
import ApiTrace.Syntax.Escape

/-!
# Escape sequences as spellings

A text with escape sequences is a row of pieces. Each of them spells a value: a character other than
the backslash itself, and after a backslash the number of a code point, the letter of a control
character, a line break, or any other character (`Escape.Piece`). Where one piece ends and the next
one begins is not always plain from the piece alone: `\u` is a piece only if no number follows, and
a line break may be a carriage return with a line feed (`Escape.Piece.Before`).

Decoding gives the values of the pieces (`Escape.decode_spelling`). Every text is spelled by pieces
up to its end, up to a backslash at its very end, or up to a number that is no code point
(`Escape.exists_pieces`), and only such a number is a fault.
-/

namespace ApiTrace

/-! ## Numbers of code points -/

namespace CodePoint

theorem ofNat?_toNat (p : CodePoint) : ofNat? p.toNat = some p := by
  cases p with
  | scalar c =>
    have hvalid : c.toNat.isValidChar := c.valid
    rw [toNat, ofNat?, dif_pos hvalid]
    rfl
  | surrogate offset =>
    have hinvalid : ¬ (0xD800 + offset.val).isValidChar := by
      unfold Nat.isValidChar
      omega
    rw [toNat, ofNat?, dif_neg hinvalid, dif_pos (by omega)]
    simp

theorem exists_toNat {n : Nat} (h : n ≤ 0x10FFFF) : ∃ p : CodePoint, p.toNat = n := by
  by_cases hvalid : n.isValidChar
  · exact ⟨.scalar (Char.ofNatAux n hvalid), rfl⟩
  · unfold Nat.isValidChar at hvalid
    refine ⟨.surrogate ⟨n - 0xD800, by omega⟩, ?_⟩
    rw [toNat]
    dsimp only
    omega

theorem ofNat?_eq_none {n : Nat} (h : 0x10FFFF < n) : ofNat? n = none := by
  have hinvalid : ¬ n.isValidChar := by
    unfold Nat.isValidChar
    omega
  rw [ofNat?, dif_neg hinvalid, dif_neg (by omega)]

end CodePoint

namespace Escape

theorem codePoint_toNat (p : CodePoint) : codePoint p.toNat = .ok [p] := by
  rw [codePoint, CodePoint.ofNat?_toNat]

theorem codePoint_eq_error {n : Nat} (h : 0x10FFFF < n) : ∃ fault, codePoint n = .error fault := by
  rw [codePoint, CodePoint.ofNat?_eq_none h]
  exact ⟨_, rfl⟩

/-! ## Pieces -/

/-- The letters of control characters, each with the character it stands for. -/
def controls : List (Char × Char) :=
  [('n', '\n'), ('t', '\t'), ('r', '\r'), ('b', '\x08'), ('f', '\x0c'), ('v', '\x0b'),
    ('0', '\x00')]

/-- The line breaks. -/
def lineBreaks : List Text := ["\n", "\r", "\r\n", "\u2028", "\u2029"].map Text.ofString

/-- The characters after `\u` that spell a number in braces. -/
def inBraces (digits : List HexDigit) : Text :=
  .scalar '\x7b' :: (HexDigit.text digits ++ [CodePoint.scalar '\x7d'])

/-- A letter and the characters after it that spell a number. -/
inductive IsNumber : CodePoint → Text → Nat → Prop where
  | braced {digits : List HexDigit} (h : digits ≠ []) :
      IsNumber (.scalar 'u') (inBraces digits) (HexDigit.number 16 digits)
  | four (a b c d : HexDigit) :
      IsNumber (.scalar 'u') (HexDigit.text [a, b, c, d]) (HexDigit.number 16 [a, b, c, d])
  | two (a b : HexDigit) : IsNumber (.scalar 'x') (HexDigit.text [a, b]) (HexDigit.number 16 [a, b])

/-- A piece of a text with escape sequences. -/
inductive Piece where
  | plain (p : CodePoint) (h : p ≠ .scalar '\\')
  | number (letter : CodePoint) (digits : Text) (p : CodePoint) (h : IsNumber letter digits p.toNat)
  | control (letter value : Char) (h : (letter, value) ∈ controls)
  | lineBreak (t : Text) (h : t ∈ lineBreaks)
  | other (p : CodePoint) (hcontrol : ∀ c ∈ controls, p ≠ .scalar c.1)
      (hbreak : [p] ∉ lineBreaks)

namespace Piece

/-- How a piece is spelled. -/
def spelling : Piece → Text
  | .plain p _ => [p]
  | .number letter digits .. => .scalar '\\' :: letter :: digits
  | .control letter .. => [.scalar '\\', .scalar letter]
  | .lineBreak t _ => .scalar '\\' :: t
  | .other p .. => [.scalar '\\', p]

/-- What a piece stands for. -/
def value : Piece → Text
  | .plain p _ | .number _ _ p _ | .other p .. => [p]
  | .control _ value _ => [.scalar value]
  | .lineBreak .. => []

/-- Whether a piece can stand before a text: the text does not complete a number or a line break. -/
def Before (following : Text) : Piece → Prop
  | .other p .. => ∀ digits n, IsNumber p digits n → ¬ digits <+: following
  | .lineBreak t _ => t = [CodePoint.scalar '\r'] → following.head? ≠ some (.scalar '\n')
  | _ => True

end Piece

/-- How a row of pieces is spelled. -/
def spelling (pieces : List Piece) : Text := pieces.flatMap Piece.spelling

/-- What a row of pieces stands for. -/
def meaning (pieces : List Piece) : Text := pieces.flatMap Piece.value

theorem spelling_cons (piece : Piece) (pieces : List Piece) :
    spelling (piece :: pieces) = piece.spelling ++ spelling pieces := List.flatMap_cons

theorem meaning_cons (piece : Piece) (pieces : List Piece) :
    meaning (piece :: pieces) = piece.value ++ meaning pieces := List.flatMap_cons

/-- Whether each piece of a row can stand before what follows it, where `tail` follows the row. -/
def Fits (tail : Text) : List Piece → Prop
  | [] => True
  | piece :: pieces => piece.Before (spelling pieces ++ tail) ∧ Fits tail pieces

/-! ## One escape sequence -/

theorem isHex_of_mem_text {ds : List HexDigit} {p : CodePoint} (h : p ∈ HexDigit.text ds) :
    isHex p = true := by
  obtain ⟨d, -, rfl⟩ := List.mem_map.1 h
  rw [isHex, HexDigit.hexDigit?_codePoint]
  rfl

theorem hexValue_text (ds : List HexDigit) :
    hexValue (HexDigit.text ds) = HexDigit.number 16 ds := by
  rw [hexValue, HexDigit.filterMap_text, HexDigit.digitsValue_map_value]

theorem length_text (ds : List HexDigit) : (HexDigit.text ds).length = ds.length :=
  List.length_map ..

theorem sequence_brace (tail : Text) : sequence (.scalar 'u' :: .scalar '\x7b' :: tail) =
    if tail.takeWhile isHex ≠ [] ∧ tail[(tail.takeWhile isHex).length]? = some (.scalar '\x7d') then
      (codePoint (hexValue (tail.takeWhile isHex))).map (·, (tail.takeWhile isHex).length + 3)
    else .ok ([CodePoint.scalar 'u'], 1) := rfl

theorem sequence_u {tail : Text} (h : tail.head? ≠ some (.scalar '\x7b')) :
    sequence (.scalar 'u' :: tail) =
      if (tail.take 4).length = 4 ∧ (tail.take 4).all isHex then
        (codePoint (hexValue (tail.take 4))).map (·, 5)
      else .ok ([CodePoint.scalar 'u'], 1) := by
  rw [sequence]
  · rfl
  · rintro tail rfl
    exact h rfl

theorem sequence_x (tail : Text) : sequence (.scalar 'x' :: tail) =
    if (tail.take 2).length = 2 ∧ (tail.take 2).all isHex then
      (codePoint (hexValue (tail.take 2))).map (·, 3)
    else .ok ([CodePoint.scalar 'x'], 1) := rfl

theorem sequence_simple {p : CodePoint} {tail : Text} (hu : p ≠ .scalar 'u') (hx : p ≠ .scalar 'x')
    (hreturn : p = .scalar '\r' → tail.head? ≠ some (.scalar '\n')) :
    sequence (p :: tail) = .ok (simple p, 1) := by
  rw [sequence]
  · rintro _ rfl
    exact fun _ => hu rfl
  · exact hu
  · exact hx
  · rintro _ rfl rfl
    exact hreturn rfl rfl

theorem simple_eq_self {p : CodePoint} (hcontrol : ∀ c ∈ controls, p ≠ .scalar c.1)
    (hbreak : [p] ∉ lineBreaks) : simple p = [p] := by
  simp only [controls, List.forall_mem_cons] at hcontrol
  simp only [lineBreaks, List.map_cons, List.mem_cons, not_or] at hbreak
  unfold simple
  split
  all_goals first
    | rfl
    | simp [Text.ofString] at hcontrol hbreak

theorem simple_control {letter value : Char} (h : (letter, value) ∈ controls) :
    simple (.scalar letter) = [CodePoint.scalar value] := by
  simp only [controls, List.mem_cons, Prod.mk.injEq, List.not_mem_nil, or_false] at h
  rcases h with ⟨rfl, rfl⟩ | ⟨rfl, rfl⟩ | ⟨rfl, rfl⟩ | ⟨rfl, rfl⟩ | ⟨rfl, rfl⟩ | ⟨rfl, rfl⟩ |
    ⟨rfl, rfl⟩ <;> rfl

/-- The digits of a number are taken whole. -/
theorem sequence_number {letter : CodePoint} {digits : Text} {n : Nat}
    (h : IsNumber letter digits n) (rest : Text) :
    sequence (letter :: (digits ++ rest)) = (codePoint n).map (·, digits.length + 1) := by
  have hhex : ∀ ds, (HexDigit.text ds).all isHex = true := fun ds =>
    List.all_eq_true.2 fun p hp => isHex_of_mem_text hp
  cases h with
  | @braced ds h =>
    have htail : inBraces ds ++ rest =
        .scalar '\x7b' :: (HexDigit.text ds ++ CodePoint.scalar '\x7d' :: rest) :=
          by simp [inBraces]
    -- The digits end at the closing brace.
    have hdigits : (HexDigit.text ds ++ CodePoint.scalar '\x7d' :: rest).takeWhile isHex =
        HexDigit.text ds := by
      rw [List.takeWhile_append_of_pos fun p hp => isHex_of_mem_text hp,
        List.takeWhile_cons_of_neg (by decide), List.append_nil]
    have hne : HexDigit.text ds ≠ [] := by simpa [HexDigit.text] using h
    rw [htail, sequence_brace, hdigits, if_pos ⟨hne, by simp⟩, hexValue_text]
    simp [inBraces]
  | four a b c d =>
    have hbrace : (HexDigit.text [a, b, c, d] ++ rest).head? ≠ some (.scalar '\x7b') := by
      intro hhead
      have hmem : CodePoint.scalar '\x7b' ∈ HexDigit.text [a, b, c, d] := by
        rw [← Option.some.inj hhead]
        exact .head _
      exact absurd (isHex_of_mem_text hmem) (by decide)
    have htake : (HexDigit.text [a, b, c, d] ++ rest).take 4 = HexDigit.text [a, b, c, d] := rfl
    rw [sequence_u hbrace, htake, if_pos ⟨rfl, hhex _⟩, hexValue_text]
    rfl
  | two a b =>
    have htake : (HexDigit.text [a, b] ++ rest).take 2 = HexDigit.text [a, b] := rfl
    rw [sequence_x, htake, if_pos ⟨rfl, hhex _⟩, hexValue_text]
    rfl

/-- A letter that no number follows stands for itself. -/
theorem sequence_other {p : CodePoint} {following : Text}
    (hcontrol : ∀ c ∈ controls, p ≠ .scalar c.1) (hbreak : [p] ∉ lineBreaks)
    (h : ∀ digits n, IsNumber p digits n → ¬ digits <+: following) :
    sequence (p :: following) = .ok ([p], 1) := by
  by_cases hu : p = .scalar 'u'
  · subst hu
    by_cases hbrace : following.head? = some (.scalar '\x7b')
    · obtain ⟨tail, rfl⟩ : ∃ tail, following = .scalar '\x7b' :: tail :=
        List.head?_eq_some_iff.1 hbrace
      rw [sequence_brace, if_neg]
      rintro ⟨hne, hclosed⟩
      obtain ⟨ds, hds⟩ := CodePoint.exists_hexDigits (t := tail.takeWhile isHex) fun p hp =>
        List.mem_takeWhile_imp (p := isHex) hp
      have hds' : ds ≠ [] := by
        rintro rfl
        exact hne hds
      refine h _ _ (.braced hds') (List.cons_prefix_cons.2 ⟨rfl, ?_⟩)
      rw [← hds, List.prefix_iff_eq_take, List.length_append, List.length_singleton,
        List.take_add_one, hclosed, ← List.prefix_iff_eq_take.1 (List.takeWhile_prefix isHex)]
      rfl
    · rw [sequence_u hbrace, if_neg]
      rintro ⟨hlength, hall⟩
      obtain ⟨ds, hds⟩ := CodePoint.exists_hexDigits fun p hp => List.all_eq_true.1 hall p hp
      rw [hds, length_text] at hlength
      obtain ⟨a, b, c, d, rfl⟩ := List.length_eq_four.1 hlength
      exact h _ _ (.four a b c d) (hds ▸ List.take_prefix 4 following)
  · by_cases hx : p = .scalar 'x'
    · subst hx
      rw [sequence_x, if_neg]
      rintro ⟨hlength, hall⟩
      obtain ⟨ds, hds⟩ := CodePoint.exists_hexDigits fun p hp => List.all_eq_true.1 hall p hp
      rw [hds, length_text] at hlength
      obtain ⟨a, b, rfl⟩ := List.length_eq_two.1 hlength
      exact h _ _ (.two a b) (hds ▸ List.take_prefix 2 following)
    · have hreturn : p ≠ .scalar '\r' := by
        rintro rfl
        exact hbreak (by decide)
      rw [sequence_simple hu hx fun hp => absurd hp hreturn, simple_eq_self hcontrol hbreak]

/-! ## Decoding -/

theorem decodeAfter_eq_drop (n : Nat) (t : Text) : decodeAfter n t = decode (t.drop n) := by
  induction t generalizing n with
  | nil => cases n <;> rfl
  | cons p rest ih =>
    cases n with
    | zero => rfl
    | succ n => exact ih n

theorem decode_plain {p : CodePoint} (h : p ≠ .scalar '\\') (rest : Text) :
    decode (p :: rest) = (decode rest).map (p :: ·) := by
  rw [decode, decodeAfter, if_neg h]
  rfl

theorem decode_backslash (rest : Text) : decode (.scalar '\\' :: rest) =
    sequence rest >>= fun found => (decode (rest.drop found.2)).map (found.1 ++ ·) := by
  rw [decode, decodeAfter, if_pos rfl]
  congr 1
  funext found
  obtain ⟨value, used⟩ := found
  dsimp only
  rw [decodeAfter_eq_drop]
  rfl

/-- After an escape sequence decoding goes on with what follows it. -/
theorem decode_sequence (body : Text) {value following : Text}
    (h : sequence (body ++ following) = .ok (value, body.length)) :
    decode (.scalar '\\' :: (body ++ following)) = (decode following).map (value ++ ·) := by
  rw [decode_backslash, h]
  show (decode ((body ++ following).drop body.length)).map _ = _
  rw [List.drop_left]

/-- Decoding gives the value of a piece. -/
theorem decode_piece {piece : Piece} {following : Text} (h : piece.Before following) :
    decode (piece.spelling ++ following) = (decode following).map (piece.value ++ ·) := by
  cases piece with
  | plain p hp => exact decode_plain hp following
  | number letter digits p hn =>
    apply decode_sequence (letter :: digits)
    rw [List.cons_append, sequence_number hn, codePoint_toNat]
    rfl
  | control letter value hc =>
    have hletter : ∀ c ∈ controls, c.1 ≠ 'u' ∧ c.1 ≠ 'x' ∧ c.1 ≠ '\r' := by decide
    obtain ⟨hu, hx, hreturn⟩ := hletter _ hc
    apply decode_sequence [CodePoint.scalar letter]
    rw [List.singleton_append, sequence_simple, simple_control hc]
    · rfl
    · exact fun heq => hu (CodePoint.scalar.inj heq)
    · exact fun heq => hx (CodePoint.scalar.inj heq)
    · exact fun heq => absurd (CodePoint.scalar.inj heq) hreturn
  | lineBreak t ht =>
    apply decode_sequence t
    simp only [lineBreaks, List.map_cons, List.map_nil, List.mem_cons, List.not_mem_nil,
      or_false] at ht
    rcases ht with rfl | rfl | rfl | rfl | rfl
    · rfl
    · exact sequence_simple (by decide) (by decide) fun _ => h rfl
    · rfl
    · rfl
    · rfl
  | other p hcontrol hbreak =>
    apply decode_sequence [p]
    exact sequence_other hcontrol hbreak h

/-- Decoding gives the values of a row of pieces. -/
theorem decode_spelling {pieces : List Piece} {tail : Text} (h : Fits tail pieces) :
    decode (spelling pieces ++ tail) = (decode tail).map (meaning pieces ++ ·) := by
  induction pieces with
  | nil =>
    show decode tail = (decode tail).map id
    cases decode tail <;> rfl
  | cons piece pieces ih =>
    obtain ⟨hpiece, hpieces⟩ := h
    rw [spelling_cons, List.append_assoc, decode_piece hpiece, ih hpieces, meaning_cons]
    cases decode tail with
    | error fault => rfl
    | ok value =>
      show Except.ok (_ ++ (_ ++ _)) = Except.ok (_ ++ _ ++ _)
      rw [List.append_assoc]

/-! ## Every text is spelled -/

/-- What can be left of a text that is split into pieces. -/
inductive Remains : Text → Prop where
  | nothing : Remains []
  | backslash : Remains [CodePoint.scalar '\\']
  | tooLarge {digits : List HexDigit} (hdigits : digits ≠ [])
      (hlarge : 0x10FFFF < HexDigit.number 16 digits)
      (rest : Text) : Remains (.scalar '\\' :: .scalar 'u' :: (inBraces digits ++ rest))

theorem number_lt_of_length {ds : List HexDigit} (h : ds.length ≤ 4) :
    HexDigit.number 16 ds ≤ 0x10FFFF := by
  have hlt : HexDigit.number 16 ds < 16 ^ ds.length :=
    HexDigit.number_lt (by decide) fun d _ => d.value.isLt
  have hpow : 16 ^ ds.length ≤ 16 ^ 4 := Nat.pow_le_pow_right (by decide) h
  omega

/-- What follows a backslash begins with a piece, or with a number that is no code point. -/
theorem exists_piece_of_backslash (p : CodePoint) (following : Text) :
    Remains (.scalar '\\' :: p :: following) ∨ ∃ (piece : Piece) (rest : Text),
      .scalar '\\' :: p :: following = piece.spelling ++ rest ∧ piece.Before rest := by
  by_cases hnumber : ∃ digits n, IsNumber p digits n ∧ digits <+: following
  · obtain ⟨digits, n, hn, rest, rfl⟩ := hnumber
    by_cases hlarge : n ≤ 0x10FFFF
    · obtain ⟨q, rfl⟩ := CodePoint.exists_toNat hlarge
      exact .inr ⟨.number p digits q hn, rest, rfl, trivial⟩
    · cases hn with
      | braced hdigits => exact .inl (.tooLarge hdigits (Nat.lt_of_not_le hlarge) rest)
      | four | two => exact absurd (number_lt_of_length (by simp)) hlarge
  · by_cases hcontrol : ∃ c ∈ controls, p = .scalar c.1
    · obtain ⟨c, hc, rfl⟩ := hcontrol
      exact .inr ⟨.control c.1 c.2 hc, following, rfl, trivial⟩
    · by_cases hbreak : [p] ∈ lineBreaks
      · by_cases hreturn : p = .scalar '\r' ∧ following.head? = some (.scalar '\n')
        · obtain ⟨rfl, hhead⟩ := hreturn
          obtain ⟨rest, rfl⟩ := List.head?_eq_some_iff.1 hhead
          exact .inr ⟨.lineBreak "\r\n" (by decide), rest, rfl, fun h => absurd h (by decide)⟩
        · refine .inr ⟨.lineBreak [p] hbreak, following, rfl, ?_⟩
          intro hp hhead
          exact hreturn ⟨List.singleton_inj.1 hp, hhead⟩
      · refine .inr ⟨.other p (fun c hc hp => hcontrol ⟨c, hc, hp⟩) hbreak, following, rfl, ?_⟩
        intro digits n hn hprefix
        exact hnumber ⟨digits, n, hn, hprefix⟩

theorem exists_piece (t : Text) : Remains t ∨ ∃ (piece : Piece) (rest : Text),
    t = piece.spelling ++ rest ∧ piece.Before rest := by
  cases t with
  | nil => exact .inl .nothing
  | cons p following =>
    by_cases hp : p = .scalar '\\'
    · subst hp
      cases following with
      | nil => exact .inl .backslash
      | cons q following => exact exists_piece_of_backslash q following
    · exact .inr ⟨.plain p hp, following, rfl, trivial⟩

theorem Piece.length_spelling_pos (piece : Piece) : 0 < piece.spelling.length := by
  cases piece <;> exact Nat.succ_pos _

/-- Every text is spelled by pieces, but for a backslash at its end or a number that is no code
point. -/
theorem exists_pieces (t : Text) : ∃ (pieces : List Piece) (tail : Text),
    t = spelling pieces ++ tail ∧ Fits tail pieces ∧ Remains tail := by
  induction hlength : t.length using Nat.strongRecOn generalizing t with
  | _ length ih =>
    rcases exists_piece t with hremains | ⟨piece, rest, rfl, hpiece⟩
    · exact ⟨[], t, rfl, trivial, hremains⟩
    · have hpos := piece.length_spelling_pos
      rw [List.length_append] at hlength
      obtain ⟨pieces, tail, rfl, hfits, hremains⟩ := ih rest.length (by omega) rest rfl
      refine ⟨piece :: pieces, tail, ?_, ⟨hpiece, hfits⟩, hremains⟩
      rw [spelling_cons, List.append_assoc]

theorem decode_tooLarge {digits : List HexDigit} (hdigits : digits ≠ [])
    (hlarge : 0x10FFFF < HexDigit.number 16 digits) (rest : Text) :
    ∃ fault, decode (.scalar '\\' :: .scalar 'u' :: (inBraces digits ++ rest)) = .error fault := by
  obtain ⟨fault, hfault⟩ := codePoint_eq_error hlarge
  refine ⟨fault, ?_⟩
  rw [decode_backslash, sequence_number (.braced hdigits), hfault]
  rfl

/-- **Decoding inverts every spelling.** What a row of pieces spells is decoded to what the pieces
stand for, and a backslash after the last of them is kept. Decoding fails exactly if there is a
number in braces that is no code point behind some pieces, and every text that can be decoded is
spelled by pieces, up to a backslash at its end. -/
theorem decode_inverts_spelling :
    (∀ pieces, Fits [] pieces → decode (spelling pieces) = .ok (meaning pieces)) ∧
    (∀ pieces, Fits [CodePoint.scalar '\\'] pieces →
      decode (spelling pieces ++ [CodePoint.scalar '\\']) = .ok
        (meaning pieces ++ [CodePoint.scalar '\\'])) ∧
    (∀ t, (∃ fault, decode t = .error fault) ↔
      ∃ (pieces : List Piece) (digits : List HexDigit) (rest : Text),
        digits ≠ [] ∧ 0x10FFFF < HexDigit.number 16 digits ∧
        Fits (.scalar '\\' :: .scalar 'u' :: (inBraces digits ++ rest)) pieces ∧
        t = spelling pieces ++ .scalar '\\' :: .scalar 'u' :: (inBraces digits ++ rest)) ∧
    ∀ t value, decode t = .ok value → ∃ pieces,
      (Fits [] pieces ∧ t = spelling pieces) ∨
      (Fits [CodePoint.scalar '\\'] pieces ∧ t = spelling pieces ++ [CodePoint.scalar '\\']) := by
  have fails : ∀ pieces digits rest, digits ≠ [] → 0x10FFFF < HexDigit.number 16 digits →
      Fits (.scalar '\\' :: .scalar 'u' :: (inBraces digits ++ rest)) pieces → ∃ fault,
      decode (spelling pieces ++ .scalar '\\' :: .scalar 'u' :: (inBraces digits ++ rest)) =
        .error fault := by
    intro pieces digits rest hdigits hlarge hfits
    obtain ⟨fault, hfault⟩ := decode_tooLarge hdigits hlarge rest
    exact ⟨fault, by rw [decode_spelling hfits, hfault]; rfl⟩
  refine ⟨?_, ?_, ?_, ?_⟩
  · intro pieces hfits
    have h := decode_spelling hfits
    rw [List.append_nil] at h
    rw [h]
    exact congrArg Except.ok (List.append_nil _)
  · intro pieces hfits
    rw [decode_spelling hfits]
    rfl
  · intro t
    constructor
    · rintro ⟨fault, hfault⟩
      obtain ⟨pieces, tail, rfl, hfits, hremains⟩ := exists_pieces t
      rw [decode_spelling hfits] at hfault
      cases hremains with
      | nothing => cases hfault
      | backslash => cases hfault
      | tooLarge hdigits hlarge rest => exact ⟨pieces, _, rest, hdigits, hlarge, hfits, rfl⟩
    · rintro ⟨pieces, digits, rest, hdigits, hlarge, hfits, rfl⟩
      exact fails pieces digits rest hdigits hlarge hfits
  · intro t value hvalue
    obtain ⟨pieces, tail, rfl, hfits, hremains⟩ := exists_pieces t
    refine ⟨pieces, ?_⟩
    cases hremains with
    | nothing => exact .inl ⟨hfits, List.append_nil _⟩
    | backslash => exact .inr ⟨hfits, rfl⟩
    | tooLarge hdigits hlarge rest =>
      obtain ⟨fault, hfault⟩ := fails pieces _ rest hdigits hlarge hfits
      rw [hfault] at hvalue
      cases hvalue

/-- The letter `u` before a single digit, and a line break before the letter of another one. -/
theorem decode_inverts_spelling_mixed :
    ∃ pieces, Fits [] pieces ∧ spelling pieces = Text.ofString "\\x4A\\u1\\\r\\n" ∧
      meaning pieces = Text.ofString "Ju1\n" ∧
      decode (Text.ofString "\\x4A\\u1\\\r\\n") = .ok (Text.ofString "Ju1\n") := by
  have hu : ∀ digits n, IsNumber (.scalar 'u') digits n →
      ¬ digits <+: Text.ofString "1\\\r\\n" := by
    rintro _ _ hn ⟨rest, hrest⟩
    cases hn with
    | braced => cases hrest
    | four a b c d =>
      have hb : b.codePoint = .scalar '\\' := (List.cons.inj (List.cons.inj hrest).2).1
      have hmem : b.codePoint ∈ HexDigit.text [b] := .head _
      have hhex := isHex_of_mem_text hmem
      rw [hb] at hhex
      cases hhex
  have hpieces : ∃ pieces, Fits [] pieces ∧ spelling pieces = Text.ofString "\\x4A\\u1\\\r\\n" ∧
      meaning pieces = Text.ofString "Ju1\n" :=
    ⟨[.number (.scalar 'x') (HexDigit.text [⟨4, false⟩, ⟨10, true⟩]) (.scalar 'J')
        (.two ⟨4, false⟩ ⟨10, true⟩), .other (.scalar 'u') (by decide) (by decide),
        .plain (.scalar '1') (by decide), .lineBreak "\r" (by decide),
          .control 'n' '\n' (by decide)],
      ⟨trivial, hu, trivial, fun _ => by decide, trivial, trivial⟩, by decide, by decide⟩
  obtain ⟨pieces, hfits, hspelling, hmeaning⟩ := hpieces
  refine ⟨pieces, hfits, hspelling, hmeaning, ?_⟩
  rw [← hspelling, ← hmeaning]
  exact decode_inverts_spelling.1 pieces hfits

end Escape

end ApiTrace
