import Mathlib.Data.List.TakeWhile
import ApiTrace.Proofs.Reading.Sessions

/-!
# Rows and lines

A place in a source has a row, the number of line feeds before it, and the source has lines,
which end at every kind of line break. What is shown for a place is the line with the number of its
row. That line holds the place if every line break before it is a line feed, alone or after a
carriage return (`ParseSession.shown_line_iff`): all other breaks are *stray*, they end a line and
no row.
-/

namespace ApiTrace.Text

/-! ## Rows -/

/-- The row of what comes after a text: the number of its line feeds. -/
def row (t : Text) : Nat := t.count (.scalar '\n')

/-- Whether a code point, with what comes after it, ends a line and no row. -/
def isStray (p : CodePoint) (rest : Text) : Bool :=
  isLineBreak p && p != .scalar '\n' && !(p == .scalar '\r' && rest.head? == some (.scalar '\n'))

/-- The number of line breaks in a text that are no line feeds, alone or after a carriage return. -/
def strays : Text → Nat
  | [] => 0
  | p :: rest => (if isStray p rest then 1 else 0) + strays rest

/-- A text without a carriage return at its end. -/
def chomp (t : Text) : Text := if t.getLast? = some (.scalar '\r') then t.dropLast else t

/-- The row of a code point: what is around it up to the line feeds. -/
def rowAround (before : Text) (c : CodePoint) (after : Text) : Text :=
  chomp ((before.reverse.takeWhile (· != .scalar '\n')).reverse
    ++ c :: after.takeWhile (· != .scalar '\n'))

/-- The line of a code point: what is around it up to the line breaks. -/
def lineAround (before : Text) (c : CodePoint) (after : Text) : Text :=
  (before.reverse.takeWhile (!isLineBreak ·)).reverse ++ c :: after.takeWhile (!isLineBreak ·)

theorem ends_break {p : CodePoint} (hp : isLineBreak p = true) {rest : Text}
    (hrest : ¬ (p = .scalar '\r' ∧ rest.head? = some (.scalar '\n'))) :
    row (p :: rest) + strays (p :: rest) = row rest + strays rest + 1 := by
  by_cases hfeed : p = .scalar '\n'
  · simp [row, strays, isStray, hfeed]
    omega
  · have hstray : isStray p rest = true := by
      rw [not_and_or] at hrest
      simpa [isStray, hp, hfeed] using hrest
    simp [row, strays, hstray, hfeed]
    omega

theorem ends_plain {p : CodePoint} (hp : isLineBreak p = false) (rest : Text) :
    row (p :: rest) + strays (p :: rest) = row rest + strays rest := by
  have hfeed : p ≠ .scalar '\n' := by
    rintro rfl
    cases hp
  simp [row, strays, isStray, hp, hfeed]

/-! ## Lines -/

theorem isLineBreak_return : isLineBreak (.scalar '\r') = true := rfl

theorem isLineBreak_feed : isLineBreak (.scalar '\n') = true := rfl

theorem linesFrom_crlf (start rest : Text) :
    linesFrom start (.scalar '\r' :: .scalar '\n' :: rest) = start.reverse :: linesFrom
      [] rest := rfl

theorem linesFrom_break {p : CodePoint} (hp : isLineBreak p = true) {rest : Text}
    (hrest : ¬ (p = .scalar '\r' ∧ rest.head? = some (.scalar '\n'))) (start : Text) :
    linesFrom start (p :: rest) = start.reverse :: linesFrom [] rest := by
  rw [linesFrom, if_pos hp]
  rintro rest' rfl rfl
  exact hrest ⟨rfl, rfl⟩

theorem linesFrom_plain {p : CodePoint} (hp : isLineBreak p = false) (start rest : Text) :
    linesFrom start (p :: rest) = linesFrom (p :: start) rest := by
  rw [linesFrom, hp]
  · rfl
  · rintro rest' rfl rfl
    cases hp

/-- No line has a line break in it. -/
theorem not_isLineBreak_of_mem_linesFrom {start t : Text}
    (hstart : ∀ p ∈ start, isLineBreak p = false) :
    ∀ l ∈ linesFrom start t, ∀ p ∈ l, isLineBreak p = false := by
  have hreverse : ∀ {start : Text}, (∀ p ∈ start, isLineBreak p = false) →
      ∀ p ∈ start.reverse, isLineBreak p = false := fun h p hp => h p (List.mem_reverse.1 hp)
  fun_induction linesFrom start t with
  | case1 => exact List.forall_mem_nil _
  | case2 => exact List.forall_mem_singleton.2 (hreverse hstart)
  | case3 start rest ih =>
    exact List.forall_mem_cons.2 ⟨hreverse hstart, ih (List.forall_mem_nil _)⟩
  | case4 start p rest _ hp ih =>
    exact List.forall_mem_cons.2 ⟨hreverse hstart, ih (List.forall_mem_nil _)⟩
  | case5 start p rest _ hp ih =>
    exact ih (List.forall_mem_cons.2 ⟨Bool.eq_false_iff.2 hp, hstart⟩)

theorem takeWhile_append_stop {α : Type} {q : α → Bool} {x : α} (hx : q x = false) (l m : List α) :
    (l ++ x :: m).takeWhile q = l.takeWhile q := by
  induction l with
  | nil => simp [hx]
  | cons a l ih => simp [List.takeWhile_cons, ih]

/-- The first line goes on up to the first line break. -/
theorem linesFrom_head {start t : Text} (hstart : start ≠ []) :
    (linesFrom start t)[0]? = some (start.reverse ++ t.takeWhile (!isLineBreak ·)) := by
  fun_induction linesFrom start t with
  | case1 start hempty => exact absurd (List.isEmpty_iff.1 hempty) hstart
  | case2 start hempty => simp
  | case3 start rest ih => simp [isLineBreak_return]
  | case4 start p rest _ hp ih => simp [hp]
  | case5 start p rest _ hp ih => simp [ih, hp]

/-- A line break begins the line anew. -/
theorem lineAround_after_break {p : CodePoint} (hp : isLineBreak p = true) (start before : Text)
    (c : CodePoint) (after : Text) :
    lineAround (start ++ p :: before) c after = lineAround before c after := by
  simp only [lineAround, List.reverse_append, List.reverse_cons, List.append_assoc,
    List.singleton_append]
  rw [takeWhile_append_stop (by simp [hp])]

/-- Every line break before a code point, be it a line feed or stray, ends one line. -/
theorem linesFrom_getElem? {c : CodePoint} (hc : isLineBreak c = false) (after : Text)
    {start : Text} (hstart : ∀ p ∈ start, isLineBreak p = false) (before : Text) :
    (linesFrom start (before ++ c :: after))[row before + strays before]?
      = some (lineAround (start.reverse ++ before) c after) := by
  have hbegin : ∀ {start : Text}, (∀ p ∈ start, isLineBreak p = false) →
      (linesFrom start (c :: after))[0]? = some (lineAround (start.reverse ++ []) c after) := by
    intro start hstart
    have hplain : ∀ p ∈ start, (!isLineBreak p) = true := fun p hp => by rw [hstart p hp]; rfl
    rw [linesFrom_plain hc, linesFrom_head (List.cons_ne_nil c start), List.append_nil, lineAround,
      List.reverse_reverse, List.takeWhile_eq_self_iff.2 hplain, List.reverse_cons,
        List.append_assoc]
    rfl
  -- The induction follows the splitting of what comes before `c`; `start` is what the line has so
  -- far.
  fun_induction linesFrom start before with
  | case1 start _ => exact hbegin hstart
  | case2 start _ => exact hbegin hstart
  | case3 start rest ih =>
    have hnumber : row (.scalar '\r' :: .scalar '\n' :: rest) +
      strays (.scalar '\r' :: .scalar '\n' :: rest)
        = row rest + strays rest + 1 := by
      simp [row, strays, isStray]
      omega
    have hline := ih (List.forall_mem_nil _)
    rw [List.reverse_nil, List.nil_append] at hline
    rw [List.cons_append, List.cons_append, linesFrom_crlf, hnumber, List.getElem?_cons_succ, hline,
      lineAround_after_break isLineBreak_return, ← List.nil_append (CodePoint.scalar '\n' :: rest),
      lineAround_after_break isLineBreak_feed]
  | case4 start p rest hpair hp ih =>
    have hnext : ¬ (p = .scalar '\r' ∧ rest.head? = some (.scalar '\n')) := by
      rintro ⟨rfl, hhead⟩
      obtain ⟨rest', rfl⟩ := List.head?_eq_some_iff.1 hhead
      exact hpair rest' rfl rfl
    -- A carriage return right before `c` is not paired, since `c` is no line feed.
    have hnext' : ¬ (p = .scalar '\r' ∧ (rest ++ c :: after).head? = some (.scalar '\n')) := by
      rintro ⟨rfl, hhead⟩
      cases rest with
      | nil =>
        obtain rfl := Option.some.inj hhead
        cases hc
      | cons q rest => exact hnext ⟨rfl, hhead⟩
    have hline := ih (List.forall_mem_nil _)
    rw [List.reverse_nil, List.nil_append] at hline
    rw [List.cons_append, linesFrom_break hp hnext', ends_break hp hnext, List.getElem?_cons_succ,
      hline, lineAround_after_break hp]
  | case5 start p rest _ hp ih =>
    have hp : isLineBreak p = false := Bool.eq_false_iff.2 hp
    have hline := ih (List.forall_mem_cons.2 ⟨hp, hstart⟩)
    rw [List.reverse_cons, List.append_assoc] at hline
    rw [List.cons_append, linesFrom_plain hp, ends_plain hp, hline]
    rfl

/-! ## Rows that are lines -/

theorem takeWhile_eq_of_forall {α : Type} {q q' : α → Bool} (hq : ∀ a, q' a = true → q a = true)
    {l : List α} (h : ∀ a ∈ l.takeWhile q, q' a = true) : l.takeWhile q' = l.takeWhile q := by
  induction l with
  | nil => rfl
  | cons a l ih =>
    cases ha : q a with
    | false =>
      have ha' : q' a = false := Bool.eq_false_iff.2 fun h' => Bool.eq_false_iff.1 ha (hq a h')
      rw [List.takeWhile_cons_of_neg (Bool.eq_false_iff.1 ha'),
        List.takeWhile_cons_of_neg (Bool.eq_false_iff.1 ha)]
    | true =>
      rw [List.takeWhile_cons_of_pos ha] at h ⊢
      obtain ⟨ha', hl⟩ := List.forall_mem_cons.1 h
      rw [List.takeWhile_cons_of_pos ha', ih hl]

/-- What comes after a code point in its row, without a carriage return at the end, is what comes
after it in its line, if there is no line break in it. -/
theorem takeWhile_eq_chomp {after : Text}
    (h : ∀ p ∈ chomp (after.takeWhile (· != .scalar '\n')), isLineBreak p = false) :
    after.takeWhile (!isLineBreak ·) = chomp (after.takeWhile (· != .scalar '\n')) := by
  have hplain : ∀ p ∈ chomp (after.takeWhile (· != .scalar '\n')), (!isLineBreak p) = true :=
    fun p hp => by rw [h p hp]; rfl
  unfold chomp at hplain ⊢
  split at hplain
  · rename_i hlast
    rw [if_pos hlast]
    obtain ⟨u, hu⟩ := List.getLast?_eq_some_iff.1 hlast
    have hafter := List.takeWhile_append_dropWhile (p := (· != CodePoint.scalar '\n')) (l := after)
    rw [hu, List.dropLast_concat] at hplain ⊢
    rw [hu, List.append_assoc, List.singleton_append] at hafter
    rw [← hafter, takeWhile_append_stop (by rw [isLineBreak_return]; rfl)]
    exact List.takeWhile_eq_self_iff.2 hplain
  · rename_i hlast
    rw [if_neg hlast]
    refine takeWhile_eq_of_forall (fun p hp => ?_) hplain
    rw [bne_iff_ne]
    rintro rfl
    cases hp

theorem rowAround_eq {c : CodePoint} (hc : isLineBreak c = false) (before after : Text) :
    rowAround before c after = (before.reverse.takeWhile (· != .scalar '\n')).reverse
      ++ c :: chomp (after.takeWhile (· != .scalar '\n')) := by
  have hreturn : c ≠ .scalar '\r' := by
    rintro rfl
    cases hc
  unfold rowAround chomp
  cases after.takeWhile (· != .scalar '\n') with
  | nil => simp [hreturn]
  | cons p u =>
    rw [List.append_cons, List.getLast?_append, List.getLast?_cons, Option.some_or,
      ← List.append_cons]
    split
    · rw [List.dropLast_append_of_ne_nil (List.cons_ne_nil _ _), List.dropLast_cons_cons]
    · rfl

theorem rowAround_eq_lineAround {before after : Text} {c : CodePoint}
    (h : ∀ p ∈ rowAround before c after, isLineBreak p = false) (hc : isLineBreak c = false) :
    rowAround before c after = lineAround before c after := by
  rw [rowAround_eq hc] at h ⊢
  obtain ⟨hbefore, hrest⟩ := List.forall_mem_append.1 h
  rw [lineAround, takeWhile_eq_chomp (List.forall_mem_cons.1 hrest).2]
  refine congrArg (·.reverse ++ _) (takeWhile_eq_of_forall (fun p hp => ?_) fun p hp => ?_).symm
  · rw [bne_iff_ne]
    rintro rfl
    cases hp
  · rw [hbefore p (List.mem_reverse.2 hp)]
    rfl

end ApiTrace.Text

namespace ApiTrace.ParseSession

theorem line?_parse (s : ParseSession) (source filepath : Text) (sourceType : Option Text)
    (tree : ConcreteTree) (i : Nat) :
    (s.parse source filepath sourceType tree).1.line? (i + 1) = (Text.lines source)[i]? := by
  have hline : ∀ t : ParseSession, t.line? (i + 1) = t.lines[i]? := by
    intro t
    have hpos : (1 : Int) ≤ i + 1 := by omega
    have hnat : ((i : Int) + 1).toNat - 1 = i := by omega
    rw [line?, if_pos hpos, hnat]
  rw [hline]
  rcases s.parse_cases source filepath sourceType tree with
    ⟨program, src, -, -, hparse⟩ | ⟨fault, kept, -, hparse⟩ <;> rw [hparse]

/-- **The line that is shown for a place.** Let a source be parsed that holds, between `before` and
`after`, a code point that is no line break. Its line has the number of its row if no stray line
break comes before it, and else a higher one, by one for each of them. The line with the number of
its row is its row exactly if no stray line break is in the row and that line is the same as its
own. -/
theorem shown_line_iff (s : ParseSession) (before after : Text) (c : CodePoint)
    (hc : Text.isLineBreak c = false) (filepath : Text) (sourceType : Option Text)
    (tree : ConcreteTree) :
    let shown := (s.parse (before ++ c :: after) filepath sourceType tree).1
    let number : Int := Text.row before + 1
    shown.line? (number + Text.strays before) = some (Text.lineAround before c after) ∧
      (shown.line? number = some (Text.rowAround before c after) ↔
        (∀ p ∈ Text.rowAround before c after, Text.isLineBreak p = false) ∧
          shown.line? number = shown.line? (number + Text.strays before)) := by
  intro shown number
  have hown : shown.line? (number + Text.strays before) = some
      (Text.lineAround before c after) := by
    have hnumber : ((Text.row before : Int) + 1 + Text.strays before)
        = ((Text.row before + Text.strays before : Nat) : Int) + 1 := by omega
    show shown.line? (Text.row before + 1 + Text.strays before) = _
    rw [hnumber, line?_parse, Text.lines]
    exact Text.linesFrom_getElem? hc after (List.forall_mem_nil _) before
  have hrow : shown.line? number = (Text.lines (before ++ c :: after))[Text.row before]? :=
    line?_parse ..
  refine ⟨hown, fun h => ?_, fun ⟨hplain, hsame⟩ => ?_⟩
  · have hplain : ∀ p ∈ Text.rowAround before c after, Text.isLineBreak p = false :=
      Text.not_isLineBreak_of_mem_linesFrom (List.forall_mem_nil _) _
        (List.mem_of_getElem? (hrow.symm.trans h))
    exact ⟨hplain, by rw [h, hown, Text.rowAround_eq_lineAround hplain hc]⟩
  · rw [hsame, hown, Text.rowAround_eq_lineAround hplain hc]

/-- After a form feed and a line feed, the second line is empty, and what stands in the second row
is the third line. -/
theorem shown_line_iff_formFeed :
    let shown := (fresh.parse [.scalar '\x0c', .scalar '\n', .scalar 'x'] [] none
      ⟨.mk ⟨"program", true, ⟨2, 3, 2, 0⟩, none⟩ [], false⟩).1
    Text.isLineBreak (.scalar 'x') = false ∧
    shown.line? 3 = some (Text.ofString "x") ∧ shown.line? 2 = some [] ∧
    shown.line? 2 ≠ some (Text.rowAround [.scalar '\x0c', .scalar '\n'] (.scalar 'x') []) := by
  intro shown
  obtain ⟨hown, hrow⟩ :=
    shown_line_iff fresh [.scalar '\x0c', .scalar '\n'] [] (.scalar 'x') rfl [] none
    ⟨.mk ⟨"program", true, ⟨2, 3, 2, 0⟩, none⟩ [], false⟩
  have hempty : shown.line? 2 = some [] := by decide
  refine ⟨rfl, hown, hempty, fun h => ?_⟩
  have hsame := (hrow.1 h).2
  rw [hown] at hsame
  cases hempty.symm.trans hsame

end ApiTrace.ParseSession
