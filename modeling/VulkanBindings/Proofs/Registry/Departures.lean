import VulkanBindings.Proofs.Registry.Unnoticed
import VulkanBindings.Proofs.Xml.Passages

/-! Documents that part somewhere within an element and come together again at its end. If what they have
there is not noticed, they are read as the same registry. -/

set_option autoImplicit false

namespace VulkanBindings.Registry

open Xml (Node Content Ending Scanner Event Error ReadsRest ReadsElement Kept received)
open Xml.Scanner (followedBy step_eq_ok)

/-- Events that begin or end the same. Whether nothing but a bracket follows the name of a tag does not matter
to an element that has a reader of its own. -/
inductive Matches (stack : List String) : Option Event → Option Event → Prop
  | none : Matches stack none none
  | leaf (name : String) (value : Xml.Leaf) :
    Matches stack (some (.leaf name value)) (some (.leaf name value))
  | opened (name : String) {bare bare' : Bool} (tags : kindOf (name :: stack) = none → bare = bare') :
    Matches stack (some (.opened name bare)) (some (.opened name bare'))
  | closed (left left' : Nat) : Matches stack (some (.closed left)) (some (.closed left'))

theorem Matches.followedBy (stack : List String) (left : Nat) (event : Option Event) :
    Matches stack event (followedBy left event) := by
  obtain _ | ⟨name, value⟩ | ⟨name, bare⟩ | left' := event
  exacts [.none, .leaf name value, .opened name fun _ => rfl, .closed left' left]

def opens : Option Event → Bool
  | some (.opened ..) => true
  | _ => false

/-- The second scanner finds what the first one does, but for an element that is open: from some place in it
on, it finds entries there that nobody tells apart from those of the first one. -/
inductive Departs (adds : Prop) : Bool → Scanner → Scanner → Prop
  | same (first : Bool) (s : Scanner) : Departs adds first s s
  | here {first : Bool} {s s' : Scanner}
    (reads : ∀ entries left last, ReadsRest Scanner.step s entries left last → ∃ entries',
      ReadsRest Scanner.step s' entries' left last ∧
        Unnoticed adds first (kindOf s.stack) entries (.ok left) entries' (.ok left))
    (inside : s.stack ≠ []) : Departs adds first s s'
  | ahead {first : Bool} {s s' next next' : Scanner} {event event' : Option Event}
    (here : s.step = (event, .ok next)) (here' : s'.step = (event', .ok next'))
    (events : Matches s.stack event event') (further : Departs adds (opens event) next next') :
    Departs adds first s s'

section Runs

variable {adds : Prop} {first : Bool} {s s' last : Scanner} {kind : Option Kind}
  {entries entries' : List (String × Node)} {ending ending' : Ending} {left : Nat}

theorem Unnoticed.of_later (unnoticed : Unnoticed adds false kind entries ending entries' ending')
    (first : Bool) : Unnoticed adds first kind entries ending entries' ending' := by
  cases unnoticed with
  | ended => exact .ended ..
  | same => exact .same ..
  | leaf name value others => exact .leaf name value others
  | element name tags contents others => exact .element name tags contents others
  | added allowed isKind unknown whole others => exact .added allowed isKind unknown whole others

namespace Departs

theorem of_later (departs : Departs adds false s s') (first : Bool) : Departs adds first s s' := by
  cases departs with
  | same => exact .same first s
  | here reads inside =>
    refine .here (fun entries left last rest => ?_) inside
    obtain ⟨entries', rest', unnoticed⟩ := reads entries left last rest
    exact ⟨entries', rest', unnoticed.of_later first⟩
  | ahead here here' events further => exact .ahead here here' events further

theorem of_followedBy {next next' : Scanner} {event : Option Event} (left : Nat)
    (here : s.step = (event, .ok next)) (here' : s'.step = (followedBy left event, .ok next'))
    (further : Departs adds false next next') : Departs adds false s s' :=
  .ahead here here' (.followedBy _ left event) (further.of_later _)

theorem meets_or (departs : Departs adds first s s') :
    (∀ entries left last, ReadsRest Scanner.step s entries left last → ∃ entries',
      ReadsRest Scanner.step s' entries' left last ∧
        Unnoticed adds first (kindOf s.stack) entries (.ok left) entries' (.ok left)) ∨
    ∀ event next, s.step = (event, .ok next) → ∃ event' next', s'.step = (event', .ok next') ∧
      Matches s.stack event event' ∧ Departs adds (opens event) next next' := by
  cases departs with
  | same => exact .inl fun entries left last reads => ⟨entries, reads, .same ..⟩
  | here reads => exact .inl reads
  | ahead here here' events further =>
    refine .inr fun event next taken => ?_
    cases here.symm.trans taken
    exact ⟨_, _, here', events, further⟩

theorem readsRest (reads : ReadsRest Scanner.step s entries left last) (departs : Departs adds first s s')
    (inside : s.stack ≠ []) :
    ∃ entries' left' last', ReadsRest Scanner.step s' entries' left' last' ∧ Departs adds false last last' ∧
      Unnoticed adds first (kindOf s.stack) entries (.ok left) entries' (.ok left') := by
  -- At each step the scanners have either met, or both of them go on.
  induction reads generalizing s' first with
  | @pass s next last entries left here later ih =>
    obtain meets | goesOn := departs.meets_or
    · obtain ⟨entries', reads, unnoticed⟩ := meets _ _ _ (.pass here later)
      exact ⟨entries', _, _, reads, .same _ _, unnoticed⟩
    obtain ⟨_, next', here', ⟨⟩, further⟩ := goesOn _ _ here
    have stack : next.stack = s.stack := (step_eq_ok.1 here).stack_eq
    obtain ⟨entries', left', last', reads, departs, unnoticed⟩ := ih further (stack ▸ inside)
    exact ⟨entries', left', last', .pass here' reads, departs, (stack ▸ unnoticed).of_later first⟩
  | @leaf s next last name value entries left here later ih =>
    obtain meets | goesOn := departs.meets_or
    · obtain ⟨entries', reads, unnoticed⟩ := meets _ _ _ (.leaf here later)
      exact ⟨entries', _, _, reads, .same _ _, unnoticed⟩
    obtain ⟨_, next', here', ⟨⟩, further⟩ := goesOn _ _ here
    have stack : next.stack = s.stack := (step_eq_ok.1 here).stack_eq
    obtain ⟨entries', left', last', reads, departs, unnoticed⟩ := ih further (stack ▸ inside)
    exact ⟨_, left', last', .leaf here' reads, departs, .leaf _ _ (stack ▸ unnoticed)⟩
  | @element s next after last name bare inner entries innerLeft left here within later inside' ih =>
    obtain meets | goesOn := departs.meets_or
    · obtain ⟨entries', reads, unnoticed⟩ := meets _ _ _ (.element here within later)
      exact ⟨entries', _, _, reads, .same _ _, unnoticed⟩
    obtain ⟨_, next', here', matched, further⟩ := goesOn _ _ here
    obtain _ | _ | ⟨_, tags⟩ | _ := matched
    have opened : next.stack = name :: s.stack := (step_eq_ok.1 here).stack_eq
    have around : after.stack = s.stack := by rw [within.ends.1, opened, List.tail_cons]
    obtain ⟨inner', innerLeft', after', within', between, contents⟩ := inside' further (by simp [opened])
    obtain ⟨entries', left', last', reads, departs, others⟩ := ih between (around ▸ inside)
    rw [opened, kindOf_cons inside] at contents
    rw [kindOf_cons inside] at tags
    exact ⟨_, left', last', .element here' within' reads, departs,
      .element name tags contents (around ▸ others)⟩
  | ended here =>
    obtain meets | goesOn := departs.meets_or
    · obtain ⟨entries', reads, unnoticed⟩ := meets _ _ _ (.ended here)
      exact ⟨entries', _, _, reads, .same _ _, unnoticed⟩
    obtain ⟨_, next', here', ⟨⟩, further⟩ := goesOn _ _ here
    exact ⟨[], _, next', .ended here', further, .ended ..⟩

theorem readsElement {name : String} {node : Node} (reads : ReadsElement Scanner.step s name node last)
    (departs : Departs adds first s s') (outside : s.stack = []) :
    ∃ bare entries left bare' entries' left' last', node = .element bare entries (.ok left) ∧
      ReadsElement Scanner.step s' name (.element bare' entries' (.ok left')) last' ∧
      Unnoticed adds true (some .registry) entries (.ok left) entries' (.ok left') := by
  -- They cannot meet outside of all elements, so the root is opened by both.
  induction reads generalizing s' first with
  | @pass s next last name node here later ih =>
    cases departs with
    | same =>
      obtain ⟨-, -, bare, entries, rfl⟩ := later.ends
      exact ⟨bare, entries, _, bare, entries, _, last, rfl, .pass here later, .same ..⟩
    | here _ inside => exact absurd outside inside
    | ahead taken here' events further =>
      cases taken.symm.trans here
      cases events
      have stack : next.stack = s.stack := (step_eq_ok.1 here).stack_eq
      obtain ⟨bare, entries, left, bare', entries', left', last', rfl, reads, unnoticed⟩ :=
        ih further (stack.trans outside)
      exact ⟨bare, entries, left, bare', entries', left', last', rfl, .pass here' reads, unnoticed⟩
  | @element s next last name bare entries left here within =>
    cases departs with
    | same => exact ⟨bare, entries, left, bare, entries, left, last, rfl, .element here within, .same ..⟩
    | here _ inside => exact absurd outside inside
    | ahead taken here' events further =>
      cases taken.symm.trans here
      obtain _ | _ | ⟨_, tags⟩ | _ := events
      have opened : next.stack = [name] := by rw [(step_eq_ok.1 here).stack_eq, outside]; rfl
      obtain ⟨entries', left', last', reads, -, unnoticed⟩ := readsRest within further (by simp [opened])
      rw [opened] at unnoticed
      exact ⟨bare, entries, left, _, entries', left', last', rfl, .element here' reads, unnoticed⟩

end Departs

end Runs

/-- A document that departs from another one which is a registry is the same registry. -/
theorem Departs.ofDocument_eq {adds : Prop} {document document' : List UInt8} {r : Registry}
    (departs : Departs adds false (.start (.ofBytes document none)) (.start (.ofBytes document' none)))
    (given : adds → ∀ root, (received document none).root = .ok root → ChoicesGiven (some .registry) root)
    (found : ofDocument (received document none) = .ok r) : ofDocument (received document' none) = .ok r := by
  obtain ⟨name, node, last, root, reads⟩ := ofDocument_takesRoot.exists_readsElement found
  obtain ⟨bare, entries, left, bare', entries', left', last', rfl, reads', unnoticed⟩ :=
    departs.readsElement reads rfl
  have root' := Content.root_of_readsElement reads'
  have kept : Kept True (Kind.registry.read (.element bare entries (.ok left)))
      (Kind.registry.read (.element bare' entries' (.ok left'))) :=
    unnoticed.read_kept fun add => given add _ root
  rw [ofDocument, received, root] at found
  rw [ofDocument, received, root']
  exact (kept r found).2

end VulkanBindings.Registry
