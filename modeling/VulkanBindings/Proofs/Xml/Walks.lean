import Mathlib.Data.List.Forall2
import VulkanBindings.Proofs.Xml.Folding
import VulkanBindings.Proofs.Xml.Markup

/-! What readers collect on their way through an element: its own texts, and what is read of its children
of one name, in their order. -/

set_option autoImplicit false

namespace VulkanBindings.Xml

section Pieces

namespace Piece

def attributes : Piece → List (String × String)
  | .text _ => []
  | .element _ attributes _ => attributes

def body : Piece → List Piece
  | .text _ => []
  | .element _ _ body => body

/-- What is found in an element: its attributes, then what stands between its tags. -/
def entries (piece : Piece) : List (String × Tree) :=
  attributeEntries piece.attributes ++ entriesOf piece.body

def isCalled (wanted : String) : Piece → Bool
  | .text _ => false
  | .element name _ _ => name = wanted

/-- The elements of that name in an element, in their order. -/
def children (wanted : String) (piece : Piece) : List Piece := piece.body.filter (·.isCalled wanted)

def text? : Piece → Option String
  | .text value => some value
  | .element .. => none

/-- The texts of an element itself, without those of the elements in it. -/
def ownText (piece : Piece) : String := String.join (piece.body.filterMap text?)

inductive IsNamed : Piece → Prop
  | text (value : String) : IsNamed (.text value)
  | element {name : String} {attributes : List (String × String)} {body : List Piece}
    (isName : IsName name.toList) (areNames : ∀ field ∈ attributes, IsName field.1.toList)
    (within : ∀ piece ∈ body, piece.IsNamed) : IsNamed (.element name attributes body)

/-- The piece can be read as this value where it stands in a document. -/
def ReadAs {α : Type} (read : Node → Except Error α) (piece : Piece) (a : α) : Prop :=
  ∃ node, node.tree = .ok piece.entry.2 ∧ read node = .ok a

end Piece

variable {marked : Prop} {attributes : List (String × String)} {pieces : List Piece} {text : List Char}

theorem Assigns.isName (assigns : Assigns marked attributes text) :
    ∀ field ∈ attributes, IsName field.1.toList := by
  induction assigns with
  | done => exact List.forall_mem_nil _
  | assign _ _ _ _ _ _ isName _ _ _ _ _ ih => exact List.forall_mem_cons.2 ⟨isName, ih⟩

theorem Labels.isName (labels : Labels marked attributes text) :
    ∀ field ∈ attributes, IsName field.1.toList := by
  cases labels with
  | none => exact List.forall_mem_nil _
  | some _ _ assigns => exact assigns.isName

theorem Markup.isNamed (markup : Markup marked pieces text) : ∀ piece ∈ pieces, piece.IsNamed := by
  induction markup with
  | nil => exact List.forall_mem_nil _
  | blank _ _ _ ih | remark _ _ _ _ ih => exact ih
  | text _ _ _ _ _ ih => exact List.forall_mem_cons.2 ⟨.text _, ih⟩
  | selfClosed isName labels _ ih =>
    exact List.forall_mem_cons.2 ⟨.element isName labels.isName (List.forall_mem_nil _), ih⟩
  | closed _ isName labels _ _ _ inside ih =>
    exact List.forall_mem_cons.2 ⟨.element isName labels.isName inside, ih⟩

theorem IsName.ne_textName {name : String} (isName : IsName name.toList) : name ≠ textName := by
  rintro rfl
  have part := isName.parts '$' (by decide)
  exact absurd part (by decide)

theorem IsDocument.isNamed {root : Piece} {document : String} (isDocument : IsDocument marked root document) :
    root.IsNamed := by
  obtain ⟨_, _, -, markup, -⟩ := isDocument
  exact markup.isNamed root List.mem_cons_self

namespace Piece.IsNamed

variable {piece : Piece}

theorem areNames (named : piece.IsNamed) : ∀ field ∈ piece.attributes, IsName field.1.toList := by
  cases named with
  | text => exact List.forall_mem_nil _
  | element _ areNames => exact areNames

theorem within (named : piece.IsNamed) : ∀ child ∈ piece.body, child.IsNamed := by
  cases named with
  | text => exact List.forall_mem_nil _
  | element _ _ within => exact within

theorem child (named : piece.IsNamed) (wanted : String) : ∀ child ∈ piece.children wanted, child.IsNamed :=
  fun child mem => named.within child (List.mem_filter.1 mem).1

end Piece.IsNamed

end Pieces

section Walks

variable {σ : Type}

inductive Hops (takes : σ → String → Node → σ → Prop) : σ → List (String × Node) → σ → Prop
  | nil (s : σ) : Hops takes s [] s
  | cons {s s' s'' : σ} {name : String} {node : Node} {nodes : List (String × Node)}
    (here : takes s name node s') (later : Hops takes s' nodes s'') :
    Hops takes s ((name, node) :: nodes) s''

/-- A reader goes through an element from one state to another. -/
structure Walks (takes : σ → String → Node → σ → Prop) (piece : Piece) (nodes : List (String × Node))
    (s s' : σ) : Prop where
  trees : treesOf nodes = .ok piece.entries
  hops : Hops takes s nodes s'

/-- What is read of an entry with that name is added to a part of the state; no other entry changes it. -/
def Adds {α β : Type} (add : α → β → α) (wanted : String) (read : Node → Except Error β) (name : String)
    (node : Node) (before after : α) : Prop :=
  if name = wanted then ∃ b, read node = .ok b ∧ after = add before b else after = before

namespace Adds

variable {α β : Type} {add : α → β → α} {wanted name : String} {read : Node → Except Error β} {node : Node}
  {a : α} {b : β}

theorem same (other : name ≠ wanted) : Adds add wanted read name node a a := by
  unfold Adds
  rw [if_neg other]

theorem more (found : read node = .ok b) : Adds add wanted read wanted node a (add a b) := by
  unfold Adds
  rw [if_pos rfl]
  exact ⟨b, found, rfl⟩

end Adds

variable {α β : Type} {takes : σ → String → Node → σ → Prop} {s s' : σ}
  {nodes front back : List (String × Node)}
  {attributes : List (String × String)} {body : List Piece} {get : σ → α} {add : α → β → α}
  {wanted : String} {read : Node → Except Error β}

namespace Hops

theorem exists_between (hops : Hops takes s (front ++ back) s') :
    ∃ between, Hops takes s front between ∧ Hops takes between back s' := by
  induction front generalizing s with
  | nil => exact ⟨s, .nil s, hops⟩
  | cons entry front ih =>
    cases hops with
    | cons here later =>
      obtain ⟨between, first, rest⟩ := ih later
      exact ⟨between, .cons here first, rest⟩

theorem of_foldChoices {step : σ → String → Node → Except Error (Step σ)} {c : Content}
    (decides : ∀ s name node taken, (name, node) ∈ nodes → step s name node = .ok taken →
      ∃ s', taken = .next s' ∧ takes s name node s')
    (found : Content.foldChoices.go step c s nodes = .ok s') : Hops takes s nodes s' := by
  induction nodes generalizing s with
  | nil =>
    obtain ⟨left, -, same⟩ := exists_of_bind_eq_ok found
    cases same
    exact .nil _
  | cons entry nodes ih =>
    rw [Content.foldChoices.go] at found
    obtain ⟨taken, here, rest⟩ := exists_of_bind_eq_ok found
    obtain ⟨t, rfl, takes⟩ := decides s entry.1 entry.2 taken List.mem_cons_self here
    exact .cons takes (ih (fun s name node taken mem =>
      decides s name node taken (List.mem_cons_of_mem _ mem)) rest)

theorem get_eq (hops : Hops takes s nodes s')
    (adds : ∀ s name node s', (name, node) ∈ nodes → takes s name node s' →
      Adds add wanted read name node (get s) (get s'))
    (none : ∀ entry ∈ nodes, entry.1 = wanted → ∀ b, read entry.2 ≠ .ok b) : get s' = get s := by
  induction hops with
  | nil => rfl
  | @cons s t s' name node nodes here later ih =>
    have added := adds s name node t List.mem_cons_self here
    obtain ⟨own, others⟩ := List.forall_mem_cons.1 none
    rw [ih (fun s name node s' mem => adds s name node s' (List.mem_cons_of_mem _ mem)) others]
    unfold Adds at added
    split at added
    · next same =>
      obtain ⟨b, found, -⟩ := added
      exact absurd found (own same b)
    · exact added

theorem exists_items (hops : Hops takes s nodes s') (trees : treesOf nodes = .ok (entriesOf body))
    (adds : ∀ s name node s', (name, node) ∈ nodes → takes s name node s' →
      Adds add wanted read name node (get s) (get s')) :
    ∃ items, get s' = items.foldl add (get s) ∧
      List.Forall₂ (Piece.ReadAs read) (body.filter (·.entry.1 = wanted)) items := by
  induction hops generalizing body with
  | nil =>
    cases body with
    | nil => exact ⟨[], rfl, .nil⟩
    | cons piece body => cases trees
  | @cons s t s' name node nodes here later ih =>
    cases body with
    | nil =>
      obtain ⟨_, _, -, -, same⟩ := exists_of_treesOf_cons trees
      cases same
    | cons piece body =>
      obtain ⟨tree, others, own, rest, same⟩ := exists_of_treesOf_cons trees
      obtain ⟨called, rfl⟩ := List.cons.inj same
      have added := adds s name node t List.mem_cons_self here
      obtain ⟨items, after, all⟩ := ih rest fun s name node s' mem =>
        adds s name node s' (List.mem_cons_of_mem _ mem)
      unfold Adds at added
      rw [after, List.filter_cons, called]
      split at added
      · next same =>
        obtain ⟨b, found, eq⟩ := added
        rw [if_pos (by simpa using same)]
        exact ⟨b :: items, by rw [eq]; rfl, .cons ⟨node, by rw [called]; exact own, found⟩ all⟩
      · next other =>
        rw [if_neg (by simpa using other)]
        exact ⟨items, by rw [added], all⟩

end Hops

theorem exists_entry_of_mem {entries : List (String × Tree)} {entry : String × Node}
    (trees : treesOf nodes = .ok entries) (mem : entry ∈ nodes) :
    ∃ tree, entry.2.tree = .ok tree ∧ (entry.1, tree) ∈ entries := by
  induction nodes generalizing entries with
  | nil => cases mem
  | cons first nodes ih =>
    obtain ⟨tree, others, own, rest, rfl⟩ := exists_of_treesOf_cons trees
    obtain rfl | mem := List.mem_cons.1 mem
    · exact ⟨tree, own, List.mem_cons_self⟩
    · obtain ⟨tree, found, mem⟩ := ih rest mem
      exact ⟨tree, found, List.mem_cons_of_mem _ mem⟩

theorem exists_attribute_of_mem {entry : String × Node}
    (trees : treesOf nodes = .ok (attributeEntries attributes)) (mem : entry ∈ nodes) :
    (∃ value, entry.2 = .leaf value) ∧ ∃ field ∈ attributes, field.1 = entry.1 := by
  obtain ⟨tree, found, mem⟩ := exists_entry_of_mem trees mem
  obtain ⟨field, mem', same⟩ := List.mem_map.1 mem
  obtain ⟨called, rfl⟩ := Prod.mk.inj same
  obtain ⟨value, leaf, -⟩ := exists_leaf_of_tree found
  exact ⟨⟨value, leaf⟩, field, mem', called⟩

theorem exists_piece_of_mem {entry : String × Node} (trees : treesOf nodes = .ok (entriesOf body))
    (mem : entry ∈ nodes) : ∃ piece ∈ body, piece.entry.1 = entry.1 ∧ entry.2.tree = .ok piece.entry.2 := by
  obtain ⟨tree, found, mem⟩ := exists_entry_of_mem trees mem
  clear trees
  induction body with
  | nil => cases mem
  | cons piece body ih =>
    rw [entriesOf] at mem
    obtain same | mem := List.mem_cons.1 mem
    · exact ⟨piece, List.mem_cons_self, by rw [← same], by rw [← same, found]⟩
    · obtain ⟨piece, mem, shown⟩ := ih mem
      exact ⟨piece, List.mem_cons_of_mem _ mem, shown⟩

theorem texts_eq {items : List String} (named : ∀ piece ∈ body, piece.IsNamed)
    (all : List.Forall₂ (Piece.ReadAs Node.text) (body.filter (·.entry.1 = textName)) items) :
    items = body.filterMap Piece.text? := by
  induction body generalizing items with
  | nil =>
    cases all
    rfl
  | cons piece body ih =>
    obtain ⟨own, others⟩ := List.forall_mem_cons.1 named
    cases own with
    | text value =>
      rw [List.filter_cons_of_pos (by simp [Piece.entry])] at all
      cases all with
      | cons first rest =>
        obtain ⟨node, tree, found⟩ := first
        rw [reads_text value node tree] at found
        cases found
        rw [ih others rest]
        rfl
    | element isName =>
      rw [List.filter_cons_of_neg (by simp [Piece.entry, isName.ne_textName])] at all
      exact ih others all

variable {piece : Piece}

/-- What stands under a name that no child has is no element. -/
theorem exists_leaf (trees : treesOf nodes = .ok piece.entries) (none : piece.children wanted = [])
    (other : wanted ≠ textName) {node : Node} (mem : (wanted, node) ∈ nodes) :
    ∃ value, node = .leaf value := by
  obtain ⟨front, back, rfl, own, inside⟩ := exists_of_treesOf_append trees
  obtain mem | mem := List.mem_append.1 mem
  · exact (exists_attribute_of_mem own mem).1
  · obtain ⟨child, mem, called, -⟩ := exists_piece_of_mem inside mem
    have apart := List.filter_eq_nil_iff.1 none child mem
    cases child with
    | text value => exact absurd called.symm other
    | element name attributes body => exact absurd called (by simpa [Piece.isCalled, Piece.entry] using apart)

namespace Walks

theorem of_fold {step : σ → String → Node → Except Error σ} {bare : Bool} {left : Nat}
    (trees : treesOf nodes = .ok piece.entries)
    (found : (Node.element bare nodes (.ok left)).fold step s = .ok s') :
    Walks (fun s name node s' => step s name node = .ok s') piece nodes s s' where
  trees := trees
  hops := .of_foldChoices (fun s name node taken _ here => by
    obtain ⟨t, takes, rfl⟩ := exists_of_map_eq_ok here
    exact ⟨t, rfl, takes⟩) found

theorem exists_children (walks : Walks takes piece nodes s s')
    (adds : ∀ s name node s', (name, node) ∈ nodes → takes s name node s' →
      Adds add wanted read name node (get s) (get s'))
    (refuses : ∀ value b, read (.leaf value) ≠ .ok b) (other : wanted ≠ textName) :
    ∃ items, get s' = items.foldl add (get s) ∧
      List.Forall₂ (Piece.ReadAs read) (piece.children wanted) items := by
  obtain ⟨front, back, rfl, own, inside⟩ := exists_of_treesOf_append walks.trees
  obtain ⟨between, first, rest⟩ := walks.hops.exists_between
  have before : get between = get s := by
    refine first.get_eq (fun s name node s' mem => adds s name node s' (List.mem_append_left _ mem))
      fun entry mem _ => ?_
    obtain ⟨⟨value, leaf⟩, -⟩ := exists_attribute_of_mem own mem
    rw [leaf]
    exact refuses value
  obtain ⟨items, after, all⟩ := rest.exists_items inside
    fun s name node s' mem => adds s name node s' (List.mem_append_right _ mem)
  have same : piece.body.filter (·.entry.1 = wanted) = piece.children wanted := by
    refine List.filter_congr fun child _ => ?_
    cases child with
    | text value => exact decide_eq_false other.symm
    | element => rfl
  rw [same] at all
  exact ⟨items, before ▸ after, all⟩

/-- What is read of the texts of an element is all of them, one after the other. -/
theorem ownText (get : σ → String) (walks : Walks takes piece nodes s s') (named : piece.IsNamed)
    (free : get s = "")
    (adds : ∀ s name node s', (name, node) ∈ nodes → takes s name node s' →
      Adds (· ++ ·) textName Node.text name node (get s) (get s')) :
    get s' = piece.ownText := by
  obtain ⟨front, back, rfl, own, inside⟩ := exists_of_treesOf_append walks.trees
  obtain ⟨between, first, rest⟩ := walks.hops.exists_between
  have before : get between = get s := by
    refine first.get_eq (fun s name node s' mem => adds s name node s' (List.mem_append_left _ mem))
      fun entry mem called => ?_
    obtain ⟨-, field, mem, same⟩ := exists_attribute_of_mem own mem
    exact absurd (same.trans called) (named.areNames field mem).ne_textName
  obtain ⟨items, after, all⟩ := rest.exists_items inside
    fun s name node s' mem => adds s name node s' (List.mem_append_right _ mem)
  rw [after, before, free, texts_eq named.within all]
  rfl

end Walks

end Walks

section Bodies

variable {nodes front back : List (String × Node)} {body : List Piece} {found : Option String}
  {ending : Ending} {text : String}

theorem textAmong_of_append (none : ∀ entry ∈ front, entry.1 ≠ textName)
    (read : textAmong found (front ++ back) ending = .ok text) : textAmong found back ending = .ok text := by
  induction front with
  | nil => exact read
  | cons entry front ih =>
    obtain ⟨own, others⟩ := List.forall_mem_cons.1 none
    rw [List.cons_append, textAmong_cons, if_neg own] at read
    obtain ⟨tree, -, read⟩ := exists_of_bind_eq_ok read
    exact ih others read

theorem texts_of_textAmong (read : textAmong found nodes ending = .ok text)
    (trees : treesOf nodes = .ok (entriesOf body)) (named : ∀ piece ∈ body, piece.IsNamed) :
    found.toList ++ body.filterMap Piece.text? = [text] := by
  induction body generalizing nodes found with
  | nil =>
    cases nodes with
    | nil =>
      rw [textAmong.eq_def] at read
      obtain ⟨left, -, read⟩ := exists_of_bind_eq_ok read
      cases found with
      | none => cases read
      | some text => cases read; rfl
    | cons entry nodes =>
      obtain ⟨_, _, -, -, same⟩ := exists_of_treesOf_cons trees
      cases same
  | cons piece body ih =>
    cases nodes with
    | nil => cases trees
    | cons entry nodes =>
      obtain ⟨tree, others, own, rest, same⟩ := exists_of_treesOf_cons trees
      obtain ⟨called, rfl⟩ := List.cons.inj same
      obtain ⟨isNamed, later⟩ := List.forall_mem_cons.1 named
      rw [textAmong_cons] at read
      cases isNamed with
      | text value =>
        obtain ⟨isText, rfl⟩ := Prod.mk.inj called
        rw [← isText, if_pos rfl] at read
        cases found with
        | some text => cases read
        | none =>
          dsimp only at read
          rw [reads_text value entry.2 own] at read
          exact ih read rest later
      | element isName =>
        obtain ⟨isElement, rfl⟩ := Prod.mk.inj called
        rw [← isElement, if_neg isName.ne_textName] at read
        obtain ⟨tree, -, read⟩ := exists_of_bind_eq_ok read
        exact ih read rest later

theorem Piece.ReadAs.exists_element {α : Type} {read : Node → Except Error α} {piece : Piece} {a : α}
    (found : piece.ReadAs read a) (refuses : ∀ value, read (.leaf value) ≠ .ok a) :
    ∃ bare nodes left, treesOf nodes = .ok piece.entries ∧ read (.element bare nodes (.ok left)) = .ok a := by
  obtain ⟨node, tree, found⟩ := found
  cases piece with
  | text value =>
    obtain ⟨value, rfl, -⟩ := exists_leaf_of_tree tree
    exact absurd found (refuses value)
  | element name attributes body =>
    obtain ⟨bare, nodes, left, rfl, trees⟩ := exists_of_tree_element tree
    exact ⟨bare, nodes, left, trees, found⟩

theorem bodyText_leaf (value : Leaf) (text : String) : (Node.leaf value).bodyText ≠ .ok text := by
  cases value <;> nofun

theorem Piece.IsNamed.ownText_eq {piece : Piece} (named : piece.IsNamed)
    (found : piece.ReadAs Node.bodyText text) : text = piece.ownText := by
  obtain ⟨bare, nodes, left, trees, read⟩ := found.exists_element (bodyText_leaf · text)
  obtain ⟨front, back, rfl, own, inside⟩ := exists_of_treesOf_append trees
  have none : ∀ entry ∈ front, entry.1 ≠ textName := fun entry mem => by
    obtain ⟨-, field, mem, same⟩ := exists_attribute_of_mem own mem
    exact same ▸ (named.areNames field mem).ne_textName
  have texts := texts_of_textAmong (textAmong_of_append none read) inside named.within
  rw [Option.toList_none, List.nil_append] at texts
  rw [Piece.ownText, texts, String.join_cons]
  simp

end Bodies

section Children

variable {σ β : Type} {takes : σ → String → Node → σ → Prop} {s s' : σ} {nodes : List (String × Node)}
  {piece : Piece} {wanted : String} {read : Node → Except Error β} {keeps : Piece → β → Prop}

theorem forall₂_of_named {items : List β} (named : piece.IsNamed)
    (all : List.Forall₂ (Piece.ReadAs read) (piece.children wanted) items)
    (each : ∀ {child : Piece} {b : β}, child.IsNamed → child.ReadAs read b → keeps child b) :
    List.Forall₂ keeps (piece.children wanted) items :=
  ((List.forall₂_and_left _ _).2 ⟨named.child wanted, all⟩).imp fun _ _ found => each found.1 found.2

theorem rel_getLast? {α : Type} {R : α → β → Prop} {as : List α} {bs : List β}
    (all : List.Forall₂ R as bs) : Option.Rel R as.getLast? bs.getLast? := by
  have back := List.forall₂_reverse_iff.2 all
  rw [List.getLast?_eq_head?_reverse, List.getLast?_eq_head?_reverse]
  generalize as.reverse = as at back
  generalize bs.reverse = bs at back
  cases back with
  | nil => exact .none
  | cons first => exact .some first

namespace Walks

/-- A list to which what is read of each child is added. -/
theorem each_child (get : σ → List β) (walks : Walks takes piece nodes s s') (named : piece.IsNamed)
    (free : get s = [])
    (adds : ∀ s name node s', takes s name node s' →
      Adds (· ++ [·]) wanted read name node (get s) (get s'))
    (refuses : ∀ value b, read (.leaf value) ≠ .ok b) (other : wanted ≠ textName)
    (each : ∀ {child : Piece} {b : β}, child.IsNamed → child.ReadAs read b → keeps child b) :
    List.Forall₂ keeps (piece.children wanted) (get s') := by
  obtain ⟨items, all, found⟩ := walks.exists_children (fun s name node s' _ => adds s name node s') refuses
    other
  have push : items.foldl (fun found b => found ++ [b]) [] = items := by simp [← List.flatMap_def]
  rw [free, push] at all
  rw [all]
  exact forall₂_of_named named found each

theorem last_child (get : σ → Option β) (walks : Walks takes piece nodes s s') (named : piece.IsNamed)
    (free : get s = none)
    (adds : ∀ s name node s', takes s name node s' →
      Adds (fun _ b => some b) wanted read name node (get s) (get s'))
    (refuses : ∀ value b, read (.leaf value) ≠ .ok b) (other : wanted ≠ textName)
    (each : ∀ {child : Piece} {b : β}, child.IsNamed → child.ReadAs read b → keeps child b) :
    Option.Rel keeps (piece.children wanted).getLast? (get s') := by
  obtain ⟨items, all, found⟩ := walks.exists_children (fun s name node s' _ => adds s name node s') refuses
    other
  have last : items.foldl (fun _ b => some b) none = items.getLast? := by
    clear all found
    induction items using List.reverseRecOn with
    | nil => rfl
    | append_singleton items b ih => rw [List.foldl_concat, List.getLast?_concat]
  rw [free, last] at all
  rw [all]
  exact rel_getLast? (forall₂_of_named named found each)

end Walks

theorem children_leaf (value : Leaf) (items : List β) :
    (Node.leaf value).children wanted read ≠ .ok items := by cases value <;> nofun

theorem children_adds {found found' : List β} {name : String} {node : Node}
    (taken : (if name = wanted then do return found ++ [← read node]
      else do
        node.skip
        return found) = .ok found') : Adds (· ++ [·]) wanted read name node found found' := by
  split at taken
  · next called =>
    obtain ⟨b, here, same⟩ := exists_of_bind_eq_ok taken
    cases same
    exact called ▸ .more here
  · next apart =>
    obtain ⟨_, -, same⟩ := exists_of_bind_eq_ok taken
    cases same
    exact .same apart

theorem Piece.ReadAs.each_child {items : List β} (found : piece.ReadAs (Node.children wanted read) items)
    (named : piece.IsNamed) (refuses : ∀ value b, read (.leaf value) ≠ .ok b) (other : wanted ≠ textName)
    (each : ∀ {child : Piece} {b : β}, child.IsNamed → child.ReadAs read b → keeps child b) :
    List.Forall₂ keeps (piece.children wanted) items := by
  obtain ⟨bare, nodes, left, trees, found⟩ := found.exists_element (children_leaf · items)
  exact (Walks.of_fold trees found).each_child id named rfl
    (fun _ _ _ _ taken => children_adds taken) refuses other each

theorem Walks.each_grandchild (get : σ → List β) {block : String} (walks : Walks takes piece nodes s s')
    (named : piece.IsNamed) (free : get s = [])
    (adds : ∀ s name node s', takes s name node s' →
      Adds (· ++ ·) block (Node.children wanted read) name node (get s) (get s'))
    (apart : block ≠ textName) (refuses : ∀ value b, read (.leaf value) ≠ .ok b) (other : wanted ≠ textName)
    (each : ∀ {child : Piece} {b : β}, child.IsNamed → child.ReadAs read b → keeps child b) :
    List.Forall₂ keeps ((piece.children block).flatMap (·.children wanted)) (get s') := by
  obtain ⟨blocks, all, found⟩ := walks.exists_children (fun s name node s' _ => adds s name node s')
    children_leaf apart
  have flat : blocks.foldl (· ++ ·) [] = blocks.flatten := by
    have folded : blocks.foldl (fun found b => found ++ id b) [] = [] ++ (blocks.map id).flatten :=
      List.foldl_append_eq_append
    simpa using folded
  rw [free, flat] at all
  have inner : List.Forall₂ (fun piece items => List.Forall₂ keeps (piece.children wanted) items)
      (piece.children block) blocks :=
    forall₂_of_named named found fun isNamed found => found.each_child isNamed refuses other each
  rw [all]
  exact List.rel_flatten (List.forall₂_map_left_iff.2 inner)

end Children

end VulkanBindings.Xml
