import VulkanBindings.Proofs.Xml.Elements

/-! How reading fails. What the reads from an input can fail with and what the scanner can find wrong is
all that there is in a document that cannot be read. -/

set_option autoImplicit false

namespace VulkanBindings.Xml

open Text.Utf8 (StopsInAscii)

variable {α β σ : Type} {kind : Error → Prop}

/-- It may fail, but only in this way. -/
structure FailsOnly (kind : Error → Prop) (read : Except Error α) : Prop where
  error : ∀ e, read = .error e → kind e

namespace FailsOnly

variable {read : Except Error α}

theorem ok (a : α) : FailsOnly kind (.ok a : Except Error α) := ⟨nofun⟩

theorem of_kind {e : Error} (fails : kind e) : FailsOnly kind (.error e : Except Error α) where
  error _ same := Except.error.inj same ▸ fails

theorem failed {e : Error} (fails : FailsOnly kind read) (failed : read = .error e) :
    FailsOnly kind (.error e : Except Error β) :=
  .of_kind (fails.error e failed)

theorem bind {f : α → Except Error β} (fails : FailsOnly kind read)
    (later : ∀ a, read = .ok a → FailsOnly kind (f a)) : FailsOnly kind (read >>= f) := by
  cases read with
  | error e => exact fails.failed rfl
  | ok a => exact later a rfl

theorem map (fails : FailsOnly kind read) (f : α → β) : FailsOnly kind (f <$> read) := by
  cases read with
  | error e => exact fails.failed rfl
  | ok a => exact .ok (f a)

end FailsOnly

namespace Input

/-- What can be left of an input by reading from it: a character at a time, or up to a delimiter, which may
then be passed over. -/
inductive Leaves (start : Input) : Input → Prop
  | start : Leaves start start
  | next {input rest : Input} {c : Char} (before : Leaves start input)
    (read : input.next = .ok (c, rest)) : Leaves start rest
  | readUntil {input rest : Input} {stop : UInt8 → Bool} {text : List Char} {b : UInt8}
    (before : Leaves start input) (ascii : StopsInAscii stop)
    (read : input.readUntil stop = .ok (text, b, rest)) : Leaves start rest
  | skip {input rest : Input} {stop : UInt8 → Bool} {text : List Char} {b : UInt8}
    (before : Leaves start input) (ascii : StopsInAscii stop)
    (read : input.readUntil stop = .ok (text, b, rest)) : Leaves start rest.skip

theorem Leaves.run {start input rest : Input} {step : σ → Char → Except Error (σ ⊕ β)} {state : σ}
    {result : β} (before : Leaves start input) (read : input.run step state = .ok (result, rest)) :
    Leaves start rest := by
  unfold Input.run at read
  generalize input.left = fuel at read
  induction fuel generalizing state input with
  | zero => cases read
  | succ fuel ih =>
    rw [run.go] at read
    obtain ⟨⟨c, later⟩, first, read⟩ := exists_of_bind_eq_ok read
    obtain ⟨answer, -, read⟩ := exists_of_bind_eq_ok read
    have after := before.next first
    obtain state | result := answer
    · exact ih after read
    · cases read
      exact after

theorem Leaves.trans {start input rest : Input} (first : Leaves start input) (second : Leaves input rest) :
    Leaves start rest := by
  induction second with
  | start => exact first
  | next _ read ih => exact .next ih read
  | readUntil _ ascii read ih => exact .readUntil ih ascii read
  | skip _ ascii read ih => exact .skip ih ascii read

/-- As long as this holds of an input, the scanner fails only in this way on it. -/
structure Guarantee (kind : Error → Prop) (holds : Input → Prop) : Prop where
  next : ∀ {input : Input}, holds input → FailsOnly kind input.next
  readUntil : ∀ {input : Input} {stop : UInt8 → Bool}, holds input → StopsInAscii stop →
    FailsOnly kind (input.readUntil stop)
  kept : ∀ {input rest : Input}, holds input → input.Leaves rest → holds rest
  ended : kind .endOfDocument
  unexpected : ∀ found expected, kind (.unexpected found expected)
  closingTag : ∀ found expected, kind (.closingTag found expected)

variable {holds : Input → Prop} {input : Input}

theorem Guarantee.run (given : Guarantee kind holds) {step : σ → Char → Except Error (σ ⊕ β)}
    (steps : ∀ state c, FailsOnly kind (step state c)) (state : σ) (here : holds input) :
    FailsOnly kind (input.run step state) := by
  unfold Input.run
  generalize input.left = fuel
  induction fuel generalizing state input with
  | zero => exact .of_kind given.ended
  | succ fuel ih =>
    refine (given.next here).bind fun ⟨c, rest⟩ read => (steps state c).bind fun answer _ => ?_
    cases answer with
    | inl state => exact ih state (given.kept here (.next .start read))
    | inr result => exact .ok _

end Input

namespace Scanner

open Input (Guarantee Leaves)

theorem Move.leaves {s next : Scanner} {event : Option Event} (move : s.Move event next) :
    s.input.Leaves next.input := by
  cases move with
  | assignment found reads opens value =>
    have named := Leaves.start.run found
    exact .skip ((Leaves.skip named attributeName_ascii reads).run opens) quote_ascii value
  | tagEnd found => exact Leaves.start.run found
  | selfClosing found => exact Leaves.start.run found
  | text found _ reads => exact .readUntil (Leaves.start.run found) less_ascii reads
  | closing found slash reads => exact ((Leaves.start.run found).next slash).run reads
  | comment found mark reads => exact ((Leaves.start.run found).next mark).run reads
  | instruction found mark reads => exact ((Leaves.start.run found).next mark).run reads
  | opening found begins _ reads =>
    have named := (Leaves.start.run found).next begins
    dsimp only
    split
    · exact .readUntil named tagName_ascii reads
    · exact .skip named tagName_ascii reads

theorem commentStep_failsOnly (state : CommentEnd) (c : Char) : FailsOnly kind (commentStep state c) := by
  cases state <;> exact .ok _

section Steps

variable {holds : Input → Prop} {s : Scanner} {input : Input} (given : Guarantee kind holds)
include given

theorem inTagStep_failsOnly (slash : Bool) (c : Char) : FailsOnly kind (inTagStep slash c) := by
  unfold inTagStep
  split_ifs
  all_goals first | exact .ok _ | exact .of_kind (given.unexpected ..)

theorem quoteStep_failsOnly (state : Unit) (c : Char) : FailsOnly kind (quoteStep state c) := by
  unfold quoteStep
  split_ifs
  all_goals first | exact .ok _ | exact .of_kind (given.unexpected ..)

theorem readAttribute_failsOnly (first : Char) (here : holds input) :
    FailsOnly kind (s.readAttribute first input).2 := by
  unfold readAttribute
  split
  · next failed => exact (given.readUntil here attributeName_ascii).failed failed
  next named =>
  have opens := given.kept here (.skip .start attributeName_ascii named)
  split
  · next failed => exact (given.run (quoteStep_failsOnly given) () opens).failed failed
  next quoted =>
  split
  · next failed =>
    exact (given.readUntil (given.kept opens (Leaves.start.run quoted)) quote_ascii).failed failed
  · exact .ok _

theorem readText_failsOnly (first : Char) (here : holds input) :
    FailsOnly kind (s.readText first input).2 := by
  unfold readText
  split
  · next failed => exact (given.readUntil here less_ascii).failed failed
  · exact .ok _

theorem readTag_failsOnly (first : Char) (here : holds input) :
    FailsOnly kind (s.readTag first input).2 := by
  unfold readTag
  split
  · next failed => exact (given.readUntil here tagName_ascii).failed failed
  · exact .ok _

theorem readClosing_failsOnly (here : holds input) : FailsOnly kind (s.readClosing input).2 := by
  unfold readClosing
  split
  · next failed => exact (given.run (fun _ _ => .ok _) [] here).failed failed
  split
  · exact .of_kind (given.closingTag ..)
  split
  · exact .ok _
  · exact .of_kind (given.closingTag ..)

theorem readMarkup_failsOnly (here : holds input) : FailsOnly kind (s.readMarkup input).2 := by
  unfold readMarkup
  split
  · next failed => exact (given.next here).failed failed
  next read =>
  have marked := given.kept here (.next .start read)
  split
  · exact readClosing_failsOnly given marked
  split
  · exact (given.run commentStep_failsOnly .none marked).map _
  split
  · exact (given.run (fun _ _ => .ok _) false marked).map _
  · exact readTag_failsOnly given _ marked

theorem step_failsOnly (here : holds s.input) : FailsOnly kind s.step.2 := by
  rw [step_eq]
  split
  · split
    · next failed => exact (given.run (inTagStep_failsOnly given) false here).failed failed
    · next found => exact readAttribute_failsOnly given _ (given.kept here (Leaves.start.run found))
    · exact .ok _
    · exact .ok _
  split
  · next failed => exact (given.run (fun _ _ => .ok _) () here).failed failed
  next found =>
  have shown := given.kept here (Leaves.start.run found)
  split
  · exact readMarkup_failsOnly given shown
  · exact readText_failsOnly given _ shown

end Steps

theorem text_failsOnly {s : Scanner} {name : String} {value : Leaf} {next : Except Error Scanner}
    (fails : FailsOnly kind s.step.2) (step : s.step = (some (.leaf name value), next)) :
    FailsOnly kind value.text := by
  rw [step] at fails
  cases next with
  | error e =>
    obtain none | ⟨_, _, same, text⟩ := exists_of_step_error step
    · cases none
    · cases same
      exact text ▸ fails.failed rfl
  | ok next =>
    have move := step_eq_ok.1 step
    cases move <;> exact .ok _

end Scanner

theorem Node.content_failsOnly {node : Node} (misplaced : ∀ place, kind (.misplaced place))
    (tree : FailsOnly kind node.tree) : FailsOnly kind node.content := by
  cases node with
  | leaf value =>
    obtain _ | e | _ := value
    · exact .of_kind (misplaced _)
    · exact tree.failed rfl
    · exact .of_kind (misplaced _)
  | element => exact .ok _

structure Content.FailsOnly (kind : Error → Prop) (c : Content) : Prop where
  entries : Xml.FailsOnly kind (treesOf c.entries)
  ending : Xml.FailsOnly kind c.ending

namespace Content.FailsOnly

variable {c : Content}

theorem cons (fails : c.FailsOnly kind) (name : String) {node : Node} (first : Xml.FailsOnly kind node.tree) :
    (c.cons name node).FailsOnly kind :=
  ⟨first.bind fun _ _ => fails.entries.bind fun _ _ => .ok _, fails.ending⟩

theorem tree (fails : c.FailsOnly kind) (bare : Bool) :
    Xml.FailsOnly kind (Node.element bare c.entries c.ending).tree :=
  fails.entries.bind fun _ _ => fails.ending.bind fun _ _ => .ok _

theorem broken {failure : Error} (fails : kind failure) : (Rests.broken failure).FailsOnly kind :=
  ⟨.ok [], .of_kind fails⟩

theorem root (fails : c.FailsOnly kind) (ended : kind .endOfDocument) : Xml.FailsOnly kind c.root := by
  unfold Content.root
  split
  · exact .ok _
  · next ends => exact fails.ending.failed ends
  · exact .of_kind ended

theorem tree_of_root {node : Node} (fails : c.FailsOnly kind) (root : c.root = .ok node) :
    Xml.FailsOnly kind node.tree := by
  obtain ⟨_ | ⟨⟨name, first⟩, rest⟩, ending⟩ := c
  · cases ending <;> cases root
  · cases root
    refine ⟨fun e broken => fails.entries.error e ?_⟩
    rw [treesOf, broken]
    rfl

theorem of_root {read : Content → Except Error α} {f : Node → Except Error α} (fails : c.FailsOnly kind)
    (reads : ∀ c, read c = c.root >>= fun node => node.content >>= fun _ => f node)
    (ended : kind .endOfDocument) (misplaced : ∀ place, kind (.misplaced place))
    (below : ∀ node, Xml.FailsOnly kind node.tree → Xml.FailsOnly kind (f node)) :
    Xml.FailsOnly kind (read c) := by
  rw [reads]
  refine (fails.root ended).bind fun node root => ?_
  have tree := fails.tree_of_root root
  exact (Node.content_failsOnly misplaced tree).bind fun _ _ => below node tree

end Content.FailsOnly

namespace Rests

open Input (Guarantee)

structure FailOnly (kind : Error → Prop) (r : Rests) : Prop where
  here : r.here.FailsOnly kind
  outer : ∀ c ∈ r.outer, c.FailsOnly kind

variable {failure : Error} {holds : Input → Prop} {s : Scanner}

theorem before_failOnly {event : Event} {after : Rests} (fails : kind failure)
    (value : ∀ name value, event = .leaf name value → Xml.FailsOnly kind value.text)
    (rests : after.FailOnly kind) : (before failure event after).FailOnly kind := by
  obtain ⟨here, outer⟩ := rests
  cases event with
  | leaf name leaf => exact ⟨here.cons name ((value name leaf rfl).bind fun _ _ => .ok _), outer⟩
  | closed left => exact ⟨⟨.ok [], .ok left⟩, List.forall_mem_cons.2 ⟨here, outer⟩⟩
  | opened name bare =>
    refine ⟨Content.FailsOnly.cons ?_ name (here.tree bare), fun c mem => outer c (List.mem_of_mem_tail mem)⟩
    cases around : after.outer with
    | nil => exact .broken fails
    | cons c more => exact outer c (around ▸ List.mem_cons_self)

theorem foldr_failOnly {event : Option Event} {after : Rests} (fails : kind failure)
    (value : ∀ name value, event = some (.leaf name value) → Xml.FailsOnly kind value.text)
    (rests : after.FailOnly kind) : (event.toList.foldr (before failure) after).FailOnly kind := by
  cases event with
  | none => exact rests
  | some event => exact before_failOnly fails (fun name leaf same => value name leaf (same ▸ rfl)) rests

theorem collect_failure (given : Guarantee kind holds) (n : Nat) (here : holds s.input) :
    kind (Events.collect n s []).failure := by
  induction n generalizing s with
  | zero => exact given.ended
  | succ n ih =>
    have fails := Scanner.step_failsOnly given here
    rcases step : s.step with ⟨event, e | next⟩
    all_goals rw [Events.collect_succ, step]
    · rw [step] at fails
      exact fails.error e rfl
    · exact ih (given.kept here (Scanner.step_eq_ok.1 step).leaves)

theorem ofScan_failOnly (given : Guarantee kind holds) (n : Nat) (here : holds s.input) :
    (ofScan n s).FailOnly kind := by
  induction n generalizing s with
  | zero => exact ⟨.broken given.ended, nofun⟩
  | succ n ih =>
    have fails := Scanner.step_failsOnly given here
    rcases step : s.step with ⟨event, e | next⟩
    all_goals
      have value (name : String) (leaf : Leaf) (found : event = some (.leaf name leaf)) :
          Xml.FailsOnly kind leaf.text :=
        Scanner.text_failsOnly fails (found ▸ step)
    · rw [step] at fails
      have broken := fails.error e rfl
      unfold ofScan
      rw [Events.collect_succ, step]
      exact foldr_failOnly broken value ⟨.broken broken, nofun⟩
    · have next := given.kept here (Scanner.step_eq_ok.1 step).leaves
      rw [ofScan_of_ok step]
      exact foldr_failOnly (collect_failure given n next) value (ih next)

end Rests

/-- What the scanner cannot fail with is nowhere in a document. -/
theorem Content.ofInput_failsOnly {holds : Input → Prop} {input : Input}
    (given : Input.Guarantee kind holds) (here : holds input) : (ofInput input).FailsOnly kind :=
  (Rests.ofScan_failOnly given (input.left + 1) here).here

end VulkanBindings.Xml
