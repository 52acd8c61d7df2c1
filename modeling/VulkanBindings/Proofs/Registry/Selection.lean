import Mathlib.Data.List.Basic
import VulkanBindings.Registry.Basic

/-! What of a registry belongs to an API: on every level, and in order, the elements that admit the API
and have only such elements around them. A registry is told by the elements on its levels, so
this also says what becomes of it if one API is selected after another. -/

set_option autoImplicit false

namespace VulkanBindings.Registry

/-- An element of a registry by itself, without the elements in it. -/
inductive Head where
  | comment (text : String)
  | platform (platform : Platform)
  | type (type : TypeDecl)
  | member (member : Member)
  | block (block : EnumBlock)
  | value (value : EnumValue)
  | command (command : Command)
  | parameter (parameter : Parameter)
  | feature (feature : Feature)
  | extension (extension : Extension)
  | require (block : RequireBlock)
  | required (value : RequiredEnum)

/-- Whether an element by itself belongs to an API. Without a list of APIs it belongs to each of them,
but an extension to none. -/
def Head.belongs (api : String) : Head → Bool
  | .comment _ | .platform _ | .block _ => true
  | .type t => admits t.api api
  | .member m => admits m.api api
  | .value v => admits v.api api
  | .command c => admits c.api api
  | .parameter p => admits p.api api
  | .feature f => admits f.api api
  | .extension e => e.supported.isSome && admits e.supported api
  | .require b => admits b.api api
  | .required e => admits e.element.api api

def under (head : Head) (inner : List (List Head)) : List (List Head) :=
  [head] :: inner.map (head :: ·)

/-- Elements, with what is in each of them. -/
def walk {α : Type} (head : α → Head) (inner : α → List (List Head)) (xs : List α) : List (List Head) :=
  xs.flatMap fun x => under (head x) (inner x)

def leaves {α : Type} (head : α → Head) (xs : List α) : List (List Head) := xs.map fun x => [head x]

def requirePaths : List RequireBlock → List (List Head) :=
  walk (fun b => .require { b with enums := [] }) fun b => leaves .required b.enums

/-- The elements in each list of a registry, on all levels and in order, each behind those that are
around it. -/
def paths (r : Registry) : List (List (List Head)) := [
  leaves .comment r.comments,
  leaves .platform r.platforms,
  walk (fun t => .type { t with members := [] }) (fun t => leaves .member t.members) r.types,
  walk (fun b => .block { b with values := [] }) (fun b => leaves .value b.values) r.enums,
  walk (fun c => .command { c with params := [] }) (fun c => leaves .parameter c.params) r.commands,
  walk (fun f => .feature { f with require := [] }) (fun f => requirePaths f.require) r.features,
  walk (fun e => .extension { e with require := [] }) (fun e => requirePaths e.require) r.extensions]

section Filter

variable {α : Type} {p : Head → Bool} {xs : List α}

theorem filter_under (head : Head) (inner : List (List Head)) :
    (under head inner).filter (·.all p) =
      if p head then under head (inner.filter (·.all p)) else [] := by
  unfold under
  cases own : p head <;> simp [List.filter_map, Function.comp_def, own]

theorem leaves_filter {head : α → Head} {own : α → Bool} (each : ∀ x, p (head x) = own x) :
    leaves head (xs.filter own) = (leaves head xs).filter (·.all p) := by
  simp [leaves, List.filter_map, Function.comp_def, each]

theorem walk_filter {head : α → Head} {inner : α → List (List Head)} {own : α → Bool} {cut : α → α}
    (each : ∀ x, p (head x) = own x ∧ head (cut x) = head x ∧
      inner (cut x) = (inner x).filter (·.all p)) :
    walk head inner ((xs.filter own).map cut) = (walk head inner xs).filter (·.all p) := by
  induction xs with
  | nil => rfl
  | cons x xs ih =>
    obtain ⟨same, heads, within⟩ := each x
    unfold walk at ih ⊢
    rw [List.flatMap_cons, List.filter_append, filter_under, ← ih, List.filter_cons, same]
    split
    · rw [List.map_cons, List.flatMap_cons, heads, within]
    · rw [List.nil_append]

end Filter

theorem requirePaths_requireFor (api : String) (blocks : List RequireBlock) :
    requirePaths (requireFor api blocks) = (requirePaths blocks).filter (·.all (Head.belongs api)) := by
  apply walk_filter
  intro b
  exact ⟨rfl, rfl, leaves_filter fun _ => rfl⟩

/-- What belongs to an API is on every level, in order, what admits it and is within what admits it. -/
theorem paths_forApi (r : Registry) (api : String) :
    (r.forApi api).paths = r.paths.map fun elements => elements.filter (·.all (Head.belongs api)) := by
  simp only [paths, List.map_cons, List.map_nil, List.cons.injEq]
  refine ⟨?comments, ?platforms, ?types, ?blocks, ?commands, ?features, ?extensions, trivial⟩
  case comments =>
    rw [← leaves_filter fun _ => rfl]
    exact congrArg _ (List.filter_true r.comments).symm
  case platforms =>
    rw [← leaves_filter fun _ => rfl]
    exact congrArg _ (List.filter_true r.platforms).symm
  case blocks =>
    have all : (r.forApi api).enums = (r.enums.filter fun _ => true).map fun b =>
        { b with values := b.values.filter fun v => admits v.api api } :=
      congrArg (List.map _) (List.filter_true r.enums).symm
    rw [all]
    apply walk_filter
    intro b
    exact ⟨rfl, rfl, leaves_filter fun _ => rfl⟩
  case types | commands =>
    apply walk_filter
    intro x
    exact ⟨rfl, rfl, leaves_filter fun _ => rfl⟩
  case features | extensions =>
    apply walk_filter
    intro x
    exact ⟨rfl, rfl, requirePaths_requireFor ..⟩

section Injective

variable {α : Type}

theorem leaves_injective {head : α → Head} (apart : Function.Injective head) :
    Function.Injective (leaves head) := by
  apply List.map_injective_iff.2
  intro x y same
  exact apart (List.singleton_inj.1 same)

/-- Paths that do not go on with what is in the element before them. -/
def Surfaces (paths : List (List Head)) : Prop := ∀ path ∈ paths.head?, path.length = 1

theorem not_surfaces {a : Head} {q : List Head} {j s : List (List Head)} (filled : [] ∉ q :: j) :
    ¬Surfaces ((q :: j).map (a :: ·) ++ s) := by
  intro surfaces
  have one : (a :: q).length = 1 := surfaces _ rfl
  apply filled
  rw [List.eq_nil_of_length_eq_zero (Nat.succ.inj one)]
  exact List.mem_cons_self

theorem under_append_inj {a b : Head} {i j r s : List (List Head)} (filled : [] ∉ i) (filled' : [] ∉ j)
    (surfaces : Surfaces r) (surfaces' : Surfaces s) (same : under a i ++ r = under b j ++ s) :
    a = b ∧ i = j ∧ r = s := by
  replace same : [a] = [b] ∧ i.map (a :: ·) ++ r = j.map (b :: ·) ++ s := List.cons.inj same
  obtain ⟨first, same⟩ := same
  obtain rfl : a = b := List.singleton_inj.1 first
  refine ⟨rfl, ?_⟩
  induction i generalizing j with
  | nil =>
    cases j with
    | nil => exact ⟨rfl, same⟩
    | cons q j =>
      subst same
      exact absurd surfaces (not_surfaces filled')
  | cons p i ih =>
    cases j with
    | nil =>
      subst same
      exact absurd surfaces' (not_surfaces filled)
    | cons q j =>
      obtain ⟨path, same⟩ := List.cons.inj same
      obtain ⟨rfl, rfl⟩ := ih (fun mem => filled (.tail _ mem)) (fun mem => filled' (.tail _ mem)) same
      rw [(List.cons.inj path).2]
      exact ⟨rfl, rfl⟩

variable {head : α → Head} {inner : α → List (List Head)}

theorem surfaces_walk (xs : List α) : Surfaces (walk head inner xs) := by
  cases xs with
  | nil => nofun
  | cons x xs =>
    rintro _ ⟨⟩
    rfl

theorem walk_injective (filled : ∀ x, [] ∉ inner x)
    (told : ∀ x y, head x = head y → inner x = inner y → x = y) :
    Function.Injective (walk head inner) := by
  intro xs ys same
  induction xs generalizing ys with
  | nil =>
    cases ys with
    | nil => rfl
    | cons y ys => cases same
  | cons x xs ih =>
    cases ys with
    | nil => cases same
    | cons y ys =>
      obtain ⟨heads, inners, rest⟩ :=
        under_append_inj (filled x) (filled y) (surfaces_walk xs) (surfaces_walk ys) same
      rw [told x y heads inners, ih rest]

theorem nil_not_mem_leaves (xs : List α) : [] ∉ leaves head xs := by
  simp [leaves]

theorem nil_not_mem_walk (xs : List α) : [] ∉ walk head inner xs := by
  simp [walk, under]

theorem walk_leaves_injective {β : Type} {leaf : β → Head} (apart : Function.Injective leaf)
    {inner : α → List β} (told : ∀ x y, head x = head y → inner x = inner y → x = y) :
    Function.Injective (walk head fun x => leaves leaf (inner x)) :=
  walk_injective (fun x => nil_not_mem_leaves (inner x)) fun x y heads same =>
    told x y heads (leaves_injective apart same)

theorem requirePaths_injective : Function.Injective requirePaths :=
  walk_leaves_injective (fun _ _ => Head.required.inj) fun _ _ heads enums =>
    congrArg₂ (fun (b : RequireBlock) enums => { b with enums }) (Head.require.inj heads) enums

theorem paths_injective : Function.Injective paths := by
  intro r r' same
  simp only [paths, List.cons.injEq] at same
  obtain ⟨comments, platforms, types, blocks, commands, features, extensions, -⟩ := same
  cases r
  cases r'
  refine (Registry.mk.injEq ..).mpr
    ⟨?comments, ?platforms, ?types, ?blocks, ?commands, ?features, ?extensions⟩
  case comments => exact leaves_injective (fun _ _ => Head.comment.inj) comments
  case platforms => exact leaves_injective (fun _ _ => Head.platform.inj) platforms
  case types =>
    refine walk_leaves_injective (fun _ _ => Head.member.inj) (fun t t' heads members => ?_) types
    exact congrArg₂ (fun (t : TypeDecl) members => { t with members }) (Head.type.inj heads) members
  case blocks =>
    refine walk_leaves_injective (fun _ _ => Head.value.inj) (fun b b' heads values => ?_) blocks
    exact congrArg₂ (fun (b : EnumBlock) values => { b with values }) (Head.block.inj heads) values
  case commands =>
    refine walk_leaves_injective (fun _ _ => Head.parameter.inj) (fun c c' heads params => ?_) commands
    exact congrArg₂ (fun (c : Command) params => { c with params }) (Head.command.inj heads) params
  case features =>
    refine walk_injective (fun f => nil_not_mem_walk f.require) (fun f f' heads require => ?_) features
    exact congrArg₂ (fun (f : Feature) require => { f with require }) (Head.feature.inj heads)
      (requirePaths_injective require)
  case extensions =>
    refine walk_injective (fun e => nil_not_mem_walk e.require) (fun e e' heads require => ?_) extensions
    exact congrArg₂ (fun (e : Extension) require => { e with require }) (Head.extension.inj heads)
      (requirePaths_injective require)

end Injective

/-- What belongs to an API is the registry of those elements, on every level and in order, that admit it
and are within such elements. To select them again changes nothing, and of two APIs either can
be selected first. -/
theorem forApi_selects (r : Registry) (a b : String) :
    (r.forApi a).forApi a = r.forApi a ∧
      (r.forApi a).forApi b = (r.forApi b).forApi a ∧
      ∀ part : Registry, part = r.forApi a ↔
        part.paths = r.paths.map fun elements => elements.filter fun path => path.all (Head.belongs a) := by
  refine ⟨?_, ?_, fun part => ?_⟩
  · apply paths_injective
    simp only [paths_forApi, List.map_map, Function.comp_def, List.filter_filter, Bool.and_self]
  · apply paths_injective
    simp only [paths_forApi, List.map_map, Function.comp_def, List.filter_filter, Bool.and_comm]
  · rw [← paths_forApi, paths_injective.eq_iff]

end VulkanBindings.Registry
