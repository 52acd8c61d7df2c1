import VulkanBindings.Proofs.Xml.Moves
import VulkanBindings.Proofs.Xml.Whole

/-! Elements that are read to their end, as runs of steps. An entry of a document can be read whole if
and only if steps read it, and the entries and endings in its tree are what these steps find. -/

set_option autoImplicit false

namespace VulkanBindings.Xml

section Runs

variable {σ : Type} (step : σ → Option Event × Except Error σ)

/-- Steps that read the rest of an element: entries up to its end, and how many bytes come after. -/
inductive ReadsRest : σ → List (String × Node) → Nat → σ → Prop
  | pass {s next last : σ} {entries : List (String × Node)} {left : Nat}
    (here : step s = (none, .ok next)) (later : ReadsRest next entries left last) :
    ReadsRest s entries left last
  | leaf {s next last : σ} {name : String} {value : Leaf} {entries : List (String × Node)} {left : Nat}
    (here : step s = (some (.leaf name value), .ok next)) (later : ReadsRest next entries left last) :
    ReadsRest s ((name, .leaf value) :: entries) left last
  | element {s next after last : σ} {name : String} {bare : Bool}
    {inner entries : List (String × Node)} {innerLeft left : Nat}
    (here : step s = (some (.opened name bare), .ok next)) (inside : ReadsRest next inner innerLeft after)
    (later : ReadsRest after entries left last) :
    ReadsRest s ((name, .element bare inner (.ok innerLeft)) :: entries) left last
  | ended {s last : σ} {left : Nat} (here : step s = (some (.closed left), .ok last)) :
    ReadsRest s [] left last

/-- Steps that read an element, from before its tag to behind its end. -/
inductive ReadsElement : σ → String → Node → σ → Prop
  | pass {s next last : σ} {name : String} {node : Node} (here : step s = (none, .ok next))
    (later : ReadsElement next name node last) : ReadsElement s name node last
  | element {s next last : σ} {name : String} {bare : Bool} {entries : List (String × Node)} {left : Nat}
    (here : step s = (some (.opened name bare), .ok next)) (inside : ReadsRest step next entries left last) :
    ReadsElement s name (.element bare entries (.ok left)) last

variable {step} {τ : Type} {step' : τ → Option Event × Except Error τ} {f : σ → τ}
  {s : σ} {name : String} {node : Node} {entries : List (String × Node)} {left : Nat}

def SameSteps (step : σ → Option Event × Except Error σ) (step' : τ → Option Event × Except Error τ)
    (f : σ → τ) : Prop :=
  ∀ s, step' (f s) = ((step s).1, f <$> (step s).2)

namespace SameSteps

theorem step_eq_ok (same : SameSteps step step' f) {event : Option Event} {next : τ} :
    step' (f s) = (event, .ok next) ↔ ∃ next', step s = (event, .ok next') ∧ next = f next' := by
  rw [same s]
  obtain ⟨found, e | next'⟩ := step s
  · simp
  · constructor
    · intro taken
      cases taken
      exact ⟨next', rfl, rfl⟩
    · rintro ⟨_, taken, rfl⟩
      cases taken
      rfl

theorem readsRest (same : SameSteps step step' f) {last : σ} (reads : ReadsRest step s entries left last) :
    ReadsRest step' (f s) entries left (f last) := by
  induction reads with
  | pass here _ ih => exact .pass (same.step_eq_ok.2 ⟨_, here, rfl⟩) ih
  | leaf here _ ih => exact .leaf (same.step_eq_ok.2 ⟨_, here, rfl⟩) ih
  | element here _ _ inner ih => exact .element (same.step_eq_ok.2 ⟨_, here, rfl⟩) inner ih
  | ended here => exact .ended (same.step_eq_ok.2 ⟨_, here, rfl⟩)

theorem readsElement (same : SameSteps step step' f) {last : σ}
    (reads : ReadsElement step s name node last) : ReadsElement step' (f s) name node (f last) := by
  induction reads with
  | pass here _ ih => exact .pass (same.step_eq_ok.2 ⟨_, here, rfl⟩) ih
  | element here inside => exact .element (same.step_eq_ok.2 ⟨_, here, rfl⟩) (same.readsRest inside)

theorem exists_readsRest (same : SameSteps step step' f) {last : τ}
    (reads : ReadsRest step' (f s) entries left last) :
    ∃ last', ReadsRest step s entries left last' ∧ last = f last' := by
  generalize start : f s = t at reads
  induction reads generalizing s with
  | pass here _ ih =>
    obtain ⟨next, taken, rfl⟩ := same.step_eq_ok.1 (start ▸ here)
    obtain ⟨last, later, rfl⟩ := ih rfl
    exact ⟨last, .pass taken later, rfl⟩
  | leaf here _ ih =>
    obtain ⟨next, taken, rfl⟩ := same.step_eq_ok.1 (start ▸ here)
    obtain ⟨last, later, rfl⟩ := ih rfl
    exact ⟨last, .leaf taken later, rfl⟩
  | element here _ _ inner ih =>
    obtain ⟨next, taken, rfl⟩ := same.step_eq_ok.1 (start ▸ here)
    obtain ⟨after, inside, rfl⟩ := inner rfl
    obtain ⟨last, later, rfl⟩ := ih rfl
    exact ⟨last, .element taken inside later, rfl⟩
  | ended here =>
    obtain ⟨last, taken, rfl⟩ := same.step_eq_ok.1 (start ▸ here)
    exact ⟨last, .ended taken, rfl⟩

end SameSteps

end Runs

variable {s next last : Scanner} {event : Option Event} {name : String} {node : Node}
  {entries : List (String × Node)} {left : Nat}

theorem Scanner.exists_of_step_error {e : Error} (step : s.step = (event, .error e)) :
    event = none ∨ ∃ name value, event = some (.leaf name value) ∧ value.text = .error e := by
  rw [step_eq] at step
  simp only [readMarkup, readAttribute, readText, readClosing, readTag, passOver] at step
  repeat' split at step
  all_goals first
    | exact .inl (Prod.mk.inj step).1.symm
    | cases step; exact .inr ⟨_, _, rfl, rfl⟩
    | cases step

open Scanner (step_eq_ok)

/-- Behind the end of an element the scanner is where it was before the tag, in the text around it. -/
theorem ReadsRest.ends (reads : ReadsRest Scanner.step s entries left last) :
    last.stack = s.stack.tail ∧ last.inTag = false ∧ last.input.left = left := by
  induction reads with
  | pass here _ ih | leaf here _ ih =>
    have stack := (step_eq_ok.1 here).stack_eq
    exact ⟨ih.1.trans (congrArg List.tail stack), ih.2⟩
  | element here _ _ inner ih =>
    have stack := (step_eq_ok.1 here).stack_eq
    refine ⟨ih.1.trans (congrArg List.tail ?_), ih.2⟩
    rw [inner.1, stack]
    rfl
  | ended here => exact ⟨(step_eq_ok.1 here).stack_eq, (step_eq_ok.1 here).closed⟩

theorem ReadsElement.ends (reads : ReadsElement Scanner.step s name node last) :
    last.stack = s.stack ∧ last.inTag = false ∧
      ∃ bare entries, node = .element bare entries (.ok last.input.left) := by
  induction reads with
  | pass here _ ih => exact ⟨ih.1.trans (step_eq_ok.1 here).stack_eq, ih.2⟩
  | element here inside =>
    obtain ⟨stack, inTag, rfl⟩ := inside.ends
    rw [(step_eq_ok.1 here).stack_eq] at stack
    exact ⟨stack, inTag, _, _, rfl⟩

def Rests.ofScan (n : Nat) (s : Scanner) : Rests :=
  let events := Events.collect n s []
  events.list.foldr (Rests.before events.failure) ⟨Rests.broken events.failure, []⟩

namespace Rests

variable {n : Nat}

theorem ofScan_of_ok (here : s.step = (event, .ok next)) :
    ofScan (n + 1) s = event.toList.foldr (before (Events.collect n next []).failure) (ofScan n next) := by
  unfold ofScan
  rw [Events.collect_succ, here]
  exact List.foldr_append

theorem ofScan_of_error {e : Error} (here : s.step = (event, .error e)) :
    (ofScan (n + 1) s).here.ending = .error e ∧ ∀ name node rest,
      (ofScan (n + 1) s).here.entries = (name, node) :: rest → ∃ value, node = .leaf value := by
  unfold ofScan
  rw [Events.collect_succ, here]
  obtain rfl | ⟨name, value, rfl, -⟩ := Scanner.exists_of_step_error here
  · exact ⟨rfl, nofun⟩
  · refine ⟨rfl, fun name node rest same => ?_⟩
    cases same
    exact ⟨value, rfl⟩

/-- The rest of an element that is whole has been read by steps, which go on in the one around it. -/
theorem exists_readsRest (whole : IsWholeUpTo (ofScan n s).here.entries (ofScan n s).here.ending) :
    ∃ left last m, (ofScan n s).here.ending = .ok left ∧
      ReadsRest Scanner.step s (ofScan n s).here.entries left last ∧ m ≤ n ∧
      (ofScan n s).outer = (ofScan m last).here :: (ofScan m last).outer := by
  -- Behind an inner element fewer steps are left than behind its tag.
  induction n using Nat.strongRecOn generalizing s with
  | _ n ih =>
    cases n with
    | zero =>
      obtain ⟨left, ends⟩ := whole.ends
      cases ends
    | succ n =>
      rcases here : s.step with ⟨event, e | next⟩
      · obtain ⟨left, ends⟩ := whole.ends
        rw [(ofScan_of_error here).1] at ends
        cases ends
      rw [ofScan_of_ok here] at whole ⊢
      obtain _ | ⟨name, value⟩ | ⟨name, bare⟩ | left := event
      · obtain ⟨left, last, m, ends, reads, fewer, outer⟩ := ih n (Nat.lt_succ_self n) whole
        exact ⟨left, last, m, ends, .pass here reads, Nat.le_succ_of_le fewer, outer⟩
      · have others := (isWholeUpTo_cons.1 whole).2
        obtain ⟨left, last, m, ends, reads, fewer, outer⟩ := ih n (Nat.lt_succ_self n) others
        exact ⟨left, last, m, ends, .leaf here reads, Nat.le_succ_of_le fewer, outer⟩
      · obtain ⟨inner, others⟩ := isWholeUpTo_cons.1 whole
        obtain ⟨innerLeft, after, k, innerEnds, inside, fewer, around⟩ :=
          ih n (Nat.lt_succ_self n) (isWhole_element.1 inner)
        simp only [Option.toList, List.foldr_cons, List.foldr_nil, before, around, List.headD_cons,
          List.tail_cons] at others ⊢
        obtain ⟨left, last, m, ends, reads, fewer', outer⟩ := ih k (Nat.lt_succ_of_le fewer) others
        exact ⟨left, last, m, ends, innerEnds ▸ .element here inside reads,
          Nat.le_succ_of_le (fewer'.trans fewer), outer⟩
      · exact ⟨left, next, n, rfl, .ended here, Nat.le_succ n, rfl⟩

theorem exists_ofScan_eq (here : s.step = (event, .ok next)) (enough : s.input.left < n) :
    ∃ m failure, next.input.left < m ∧
      ofScan n s = event.toList.foldr (before failure) (ofScan m next) := by
  have shorter := (step_eq_ok.1 here).shorter
  obtain ⟨n, rfl⟩ := Nat.exists_eq_succ_of_ne_zero (Nat.ne_zero_of_lt enough)
  exact ⟨n, _, by omega, ofScan_of_ok here⟩

theorem ofScan_of_readsRest (reads : ReadsRest Scanner.step s entries left last)
    (enough : s.input.left < n) : ∃ m, last.input.left < m ∧
      ofScan n s = ⟨⟨entries, .ok left⟩, (ofScan m last).here :: (ofScan m last).outer⟩ := by
  induction reads generalizing n with
  | pass here _ ih =>
    obtain ⟨k, failure, enough, scan⟩ := exists_ofScan_eq here enough
    obtain ⟨m, enough, rest⟩ := ih enough
    exact ⟨m, enough, scan.trans rest⟩
  | leaf here _ ih =>
    obtain ⟨k, failure, enough, scan⟩ := exists_ofScan_eq here enough
    obtain ⟨m, enough, rest⟩ := ih enough
    rw [rest] at scan
    exact ⟨m, enough, scan⟩
  | element here _ _ inner ih =>
    obtain ⟨k, failure, enough, scan⟩ := exists_ofScan_eq here enough
    obtain ⟨k, enough, inside⟩ := inner enough
    obtain ⟨m, enough, rest⟩ := ih enough
    rw [inside, rest] at scan
    exact ⟨m, enough, scan⟩
  | ended here =>
    obtain ⟨m, failure, enough, scan⟩ := exists_ofScan_eq here enough
    exact ⟨m, enough, scan⟩

theorem exists_readsElement {bare : Bool} {ending : Ending} {rest : List (String × Node)}
    (first : (ofScan n s).here.entries = (name, .element bare entries ending) :: rest)
    (whole : IsWholeUpTo entries ending) :
    ∃ last, ReadsElement Scanner.step s name (.element bare entries ending) last := by
  induction n generalizing s with
  | zero => cases first
  | succ n ih =>
    rcases here : s.step with ⟨event, e | next⟩
    · obtain ⟨value, same⟩ := (ofScan_of_error here).2 _ _ _ first
      cases same
    rw [ofScan_of_ok here] at first
    obtain _ | ⟨_, value⟩ | ⟨_, bare⟩ | left := event
    · obtain ⟨last, reads⟩ := ih first
      exact ⟨last, .pass here reads⟩
    · cases first
    · cases first
      obtain ⟨left, last, m, ends, inside, -⟩ := exists_readsRest whole
      exact ⟨last, ends ▸ .element here inside⟩
    · cases first

theorem ofScan_of_readsElement (reads : ReadsElement Scanner.step s name node last)
    (enough : s.input.left < n) : ∃ rest, (ofScan n s).here.entries = (name, node) :: rest := by
  induction reads generalizing n with
  | pass here _ ih =>
    obtain ⟨k, failure, enough, scan⟩ := exists_ofScan_eq here enough
    obtain ⟨rest, first⟩ := ih enough
    exact ⟨rest, scan ▸ first⟩
  | element here inside =>
    obtain ⟨k, failure, enough, scan⟩ := exists_ofScan_eq here enough
    obtain ⟨m, -, content⟩ := ofScan_of_readsRest inside enough
    rw [content] at scan
    exact ⟨_, congrArg (·.here.entries) scan⟩

end Rests

namespace Content

variable {input : Input}

theorem root_of_entries {c : Content} {rest : List (String × Node)}
    (first : c.entries = (name, node) :: rest) : c.root = .ok node := by
  rw [root, first]

theorem exists_readsElement {bare : Bool} {ending : Ending}
    (found : (ofInput input).root = .ok (.element bare entries ending))
    (whole : IsWholeUpTo entries ending) :
    ∃ name last, ReadsElement Scanner.step (.start input) name (.element bare entries ending) last := by
  have scan : ofInput input = (Rests.ofScan (input.left + 1) (.start input)).here := rfl
  rw [scan, root] at found
  split at found
  · next name node rest first =>
    cases found
    exact ⟨name, Rests.exists_readsElement first whole⟩
  · cases found
  · cases found

theorem root_of_readsElement (reads : ReadsElement Scanner.step (.start input) name node last) :
    (ofInput input).root = .ok node := by
  obtain ⟨rest, first⟩ := Rests.ofScan_of_readsElement reads (Nat.lt_succ_self _)
  exact root_of_entries first

end Content

end VulkanBindings.Xml
