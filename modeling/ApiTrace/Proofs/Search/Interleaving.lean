import ApiTrace.Proofs.Flow.Consistency
import ApiTrace.Proofs.Search.Strategies

/-!
# Searches that are open at the same time

Searches do not disturb each other: whatever is done with the others, before and in between, a
search answers as if it had been alone (`Runs.perform_search`). So each gives the matches of its
strategy in their order, until it is given up, and then its stack is empty
(`Tracer.searches_independent`).
-/

namespace ApiTrace

variable {κ : Type} {τ : κ → Type} {t : Tracer} {ε : Type}

/-- What a command asks of the search of a number. -/
def Command.request? (number : Nat) : Command τ → Option Request
  | .start .. => none
  | .serve n request => if n = number then some request else none

/-- The answers of the search of a number. -/
def Reply.heard (number : Nat) (replies : List (Nat × Reply ε)) : List (Reply ε) :=
  (replies.filter (·.1 = number)).map Prod.snd

theorem Reply.heard_append (number : Nat) (replies replies' : List (Nat × Reply ε)) :
    heard number (replies ++ replies') = heard number replies ++ heard number replies' := by
  simp [heard]

theorem Reply.heard_toList (number n : Nat) (reply : Option (Reply ε)) :
    heard number (reply.toList.map (n, ·)) = if n = number then reply.toList else [] := by
  cases reply with
  | none => simp [heard]
  | some reply => by_cases h : n = number <;> simp [heard, h]

namespace Runs

variable {p : (k : κ) → Plan t ε (τ k)} {r : Runs τ} {number : Nat} {k : κ} {s : Search (τ k)}

theorem serve_self (h : r.searches[number]? = some ⟨k, s⟩) (request : Request) :
    (r.serve p number request).1 = ((p k).serve s request).1 ∧
      (r.serve p number request).2.searches[number]? = some ⟨k, ((p k).serve s request).2⟩ := by
  have hlt : number < r.searches.length := (List.getElem?_eq_some_iff.1 h).1
  unfold serve
  rw [h]
  exact ⟨rfl, List.getElem?_set_self hlt⟩

theorem serve_other (h : r.searches[number]? = some ⟨k, s⟩) {n : Nat} (hn : n ≠ number)
    (request : Request) :
    (r.serve p n request).2.searches[number]? = some ⟨k, s⟩ := by
  unfold serve
  split
  · exact h
  · exact (List.getElem?_set_ne hn).trans h

/-- A search answers as if it were alone, and is in the end where it would be if it were alone. -/
theorem perform_search (h : r.searches[number]? = some ⟨k, s⟩) (commands : List (Command τ)) :
    Reply.heard number (r.perform p commands).1
        = ((p k).serveAll s (commands.filterMap (·.request? number))).1 ∧
      (r.perform p commands).2.searches[number]?
        = some ⟨k, ((p k).serveAll s (commands.filterMap (·.request? number))).2⟩ := by
  -- Only a request to this very search changes it, or is answered by it.
  induction commands generalizing r s with
  | nil => exact ⟨rfl, h⟩
  | cons command commands ih =>
    cases command with
    | start k' s' =>
      have hlt : number < r.searches.length := (List.getElem?_eq_some_iff.1 h).1
      apply ih
      show (r.searches ++ [_])[number]? = _
      rw [List.getElem?_append_left hlt, h]
    | serve n request =>
      rw [perform, Reply.heard_append, Reply.heard_toList]
      by_cases hn : n = number
      · subst hn
        obtain ⟨hreply, hleft⟩ := serve_self (p := p) h request
        obtain ⟨hreplies, hlast⟩ := ih hleft
        have hrequest : (Command.serve n request : Command τ).request? n = some
            request := if_pos rfl
        rw [if_pos rfl, hreply, hreplies, List.filterMap_cons_some hrequest]
        exact ⟨rfl, hlast⟩
      · have hrest := ih (serve_other (p := p) h hn request)
        rw [if_neg hn, List.nil_append, List.filterMap_cons_none (by simp [Command.request?, hn])]
        exact hrest

end Runs

/-- **Searches are independent.** A search is started while any others are open, and then anything
is done with all of them. It answers with the matches of its strategy in their order, then with the
fault, if there is one, at the place where the strategy ends in it, and from then on, or once it is
given up, that it has ended. Its stack holds no variable twice; it is that of the match on which the
search rests, and it is empty once the search is given up, or is asked more often than there are
matches. -/
theorem Tracer.searches_independent {ι : κ → Type} (t : Tracer) (mode : Mode) (names : List Text)
    (runs : Runs fun k => Item (ι k)) (k : κ) (map : Except Outline.Fault (TraceMap (ι k)))
    (strategy : Strategy) (later : List (Command fun k => Item (ι k))) :
    let lone := t.loneMatches mode names map strategy
    let number := runs.searches.length
    let session := (runs.start k (t.search names map strategy)).perform (fun _ => t.plan mode) later
    let requests := later.filterMap (·.request? number)
    Reply.heard number session.1 = lone.replies (requests.takeWhile (· = .next)).length
      ++ List.replicate ((requests.dropWhile (· = .next)).count .next) .ended ∧
    ∃ last, session.2.searches[number]? = some ⟨k, last⟩ ∧ last.stack.Nodup ∧
      (.close ∈ requests ∨ lone.found.length < requests.length → last.stack = []) ∧
      ∀ j m, requests = List.replicate (j + 1) .next → lone.found[j]? = some m →
        last.stack = m.via := by
  intro lone number session requests
  have hstart : (runs.start k (t.search names map strategy)).searches[number]?
      = some ⟨k, t.search names map strategy⟩ := List.getElem?_concat_length
  have hbalanced : (t.search names map strategy).Balanced := by
    unfold Tracer.search
    split <;> exact Search.balanced_ofTasks _
  obtain ⟨hheard, hlast⟩ := Runs.perform_search (p := fun _ => t.plan mode) hstart later
  have hreplies := (t.plan mode).serveAll_replies hbalanced requests
  have hrests := (t.plan mode).rests_serveAll hbalanced requests
  rw [t.rest_search] at hreplies hrests
  refine ⟨hheard.trans hreplies, _, hlast, hrests.balanced.nodup, ?_, ?_⟩
  · intro hend
    rw [show _ = Search.done from hrests.at_end hend]
    rfl
  · intro j m hrequests hfound
    exact hrests.at_match hrequests hfound

/-- A search for CommonJS modules that is open. -/
def moduleRuns : Runs fun _ : Unit => Item (Fin 3) :=
  Runs.empty.start () (Tracer.moduleTracer.search [] (.ok Tracer.functionMap) .cjs)

/-- Both searches are asked in turn, and both are given up. -/
def moduleCommands : List (Command fun _ : Unit => Item (Fin 3)) :=
  [.serve 1 .next, .serve 0 .next, .serve 1 .close, .serve 0 .close, .serve 1 .next]

theorem Tracer.searches_independent_module :
    let session := (moduleRuns.start () (moduleTracer.search [] (.ok functionMap) .globals)).perform
      (fun _ => moduleTracer.plan .strict) moduleCommands
    ∃ m ∈ (moduleTracer.globalMatches [] functionMap).found,
      Reply.heard 1 session.1 = [.found m, .ended] ∧
      ∃ last, session.2.searches[1]? = some ⟨(), last⟩ ∧ last.stack = [] := by
  intro session
  obtain ⟨hheard, last, hlast, -, hend, -⟩ :=
    Tracer.searches_independent moduleTracer .strict [] moduleRuns ()
    (.ok functionMap) .globals moduleCommands
  cases hfound : (moduleTracer.globalMatches [] functionMap).found with
  | nil =>
    have hsome : (moduleTracer.globalMatches [] functionMap).found ≠ [] := by decide +kernel
    exact absurd hfound hsome
  | cons m rest =>
    refine ⟨m, List.mem_cons_self, hheard.trans ?_, last, hlast, hend (.inl (by decide))⟩
    have hlone : (moduleTracer.loneMatches .strict [] (.ok functionMap) .globals).found = m ::
        rest := hfound
    show Emission.replies _ 1 ++ [Reply.ended] = _
    simp [Emission.replies, Emission.script, hlone]

end ApiTrace
