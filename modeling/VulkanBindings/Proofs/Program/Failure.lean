import VulkanBindings.Program
import VulkanBindings.Proofs.Program.Files

/-! What a run of the generator leaves behind. A registry that cannot be read is noticed before any
file is created, a name that is defined in two ways after all three were: it leaves them empty. -/

set_option autoImplicit false

namespace VulkanBindings

namespace Script

variable {α β : Type}

theorem run_create (path : String) (next : Bool → Script α) (f : Folder) :
    (create path next).run f = match f.write? path [] with
      | some after => (next true).run after
      | none => (next false).run f := rfl

theorem value_run_bind (s : Script α) (next : α → Script β) (f : Folder) :
    ((s >>= next).run f).value = ((next (s.run f).value.1).run (s.run f).value.2).value := by
  induction s generalizing f with
  | done a => rfl
  | look path rest ih => exact ih _ f
  | create path rest ih =>
    change ((Script.create path fun made => (rest made).bind next).run f).value = _
    rw [run_create, run_create]
    cases f.write? path [] with
    | none => exact ih false f
    | some after => exact ih true after
  | write path text rest ih => exact ih _
  | report record rest ih => exact ih f

theorem value_run_ofLogged (x : Logged α) (f : Folder) : ((ofLogged x).run f).value = (x.value, f) := by
  unfold ofLogged
  induction x.records with
  | nil => rfl
  | cons record rest ih => exact ih

end Script

namespace Program

variable {α β : Type}

/-- What a program does in a folder: its result, and the folder afterwards. -/
def outcome (p : Program α) (f : Folder) : Except Failure α × Folder := (p.run.run f).value

theorem outcome_bind (p : Program α) (next : α → Program β) (f : Folder) :
    outcome (p >>= next) f = match outcome p f with
      | (.ok a, after) => outcome (next a) after
      | (.error e, after) => (.error e, after) := by
  unfold outcome
  rw [ExceptT.run_bind, Script.value_run_bind]
  obtain ⟨result, after⟩ := (p.run.run f).value
  cases result <;> rfl

theorem outcome_ofLogged (x : Logged α) (f : Folder) :
    outcome (.ofLogged x) f = (.ok x.value, f) := by
  unfold outcome ofLogged ExceptT.lift
  change ((Except.ok <$> Script.ofLogged x).run f).value = _
  rw [map_eq_pure_bind, Script.value_run_bind, Script.value_run_ofLogged]
  rfl

theorem outcome_look (path : String) (f : Folder) :
    outcome (look path) f =
      ((f.look path).elim (.error (.file path)) .ok, f) := by
  unfold outcome look
  change ((Script.look path _).run f).value = _
  unfold Script.run
  cases f.look path <;> rfl

theorem outcome_create (path : String) (f : Folder) :
    outcome (create path) f = match f.write? path [] with
      | some after => (.ok (), after)
      | none => (.error (.file path), f) := by
  unfold outcome create
  change ((Script.create path _).run f).value = _
  rw [Script.run_create]
  cases f.write? path [] <;> rfl

theorem outcome_createFile (path : String) (f : Folder) :
    outcome (createFile path) f = match f.write? path [] with
      | some after => (.ok (), after)
      | none => (.error (.file path), f) := by
  unfold createFile
  rw [outcome_bind, outcome_ofLogged]
  exact outcome_create path f

theorem outcome_bind_ok {p : Program α} {next : α → Program β} {f between : Folder} {a : α}
    (first : outcome p f = (.ok a, between)) :
    outcome (p >>= next) f = outcome (next a) between := by
  rw [outcome_bind, first]

theorem outcome_bind_error {p : Program α} {next : α → Program β} {f after : Folder} {e : Failure}
    (failed : outcome (p >>= next) f = (.error e, after)) :
    outcome p f = (.error e, after) ∨
      ∃ a between, outcome p f = (.ok a, between) ∧ outcome (next a) between = (.error e, after) := by
  rw [outcome_bind] at failed
  split at failed
  · next a between first => exact .inr ⟨a, between, first, failed⟩
  · next e' between first =>
    cases failed
    exact .inl first

end Program

/-- What is read of the registry at a path. -/
def Registry.ofFolder (f : Folder) (path api : String) : Except Failure Registry :=
  match f.look path with
  | none => .error (.file path)
  | some .folder => .error (.registry .folder)
  | some (.file bytes) =>
    match (Registry.read (.ofInput (.ofBytes bytes (some blockSize)))).value with
    | .error cause => .error (.registry cause)
    | .ok registry => .ok (registry.forApi api)

theorem Registry.outcome_load (path api : String) (f : Folder) :
    (Registry.load path api).outcome f = (Registry.ofFolder f path api, f) := by
  unfold Registry.load Registry.ofFolder
  rw [Program.outcome_bind, Program.outcome_ofLogged]
  dsimp only
  rw [Program.outcome_bind, Program.outcome_look]
  cases f.look path with
  | none => rfl
  | some entry =>
    cases entry with
    | folder => rfl
    | file bytes =>
      dsimp only [Option.elim]
      rw [Program.outcome_bind, Program.outcome_ofLogged]
      dsimp only
      cases (Registry.read (.ofInput (.ofBytes bytes (some blockSize)))).value <;> rfl

def Config.outputs (config : Config) (dir : String) : List String :=
  [joinPath dir config.goFile, joinPath dir config.headerFile, joinPath dir config.cFile]

namespace Program

theorem createFile_ok {path : String} {f after : Folder} (made : f.write? path [] = some after) :
    outcome (createFile path) f = (.ok (), after) := by
  rw [outcome_createFile, made]

theorem written_of_createFile {path : String} {f after : Folder}
    (made : outcome (createFile path) f = (.ok (), after)) : Folder.Written f after path [] := by
  rw [outcome_createFile] at made
  cases written : f.write? path [] with
  | none => simp [written] at made
  | some _ =>
    simp only [written, Prod.mk.injEq, true_and] at made
    exact made ▸ Folder.written_of_write? written

theorem createFile_error {path : String} {f after : Folder} {e : Failure}
    (failed : outcome (createFile path) f = (.error e, after)) : e = .file path := by
  rw [outcome_createFile] at failed
  cases written : f.write? path [] with
  | none =>
    simp only [written, Prod.mk.injEq, Except.error.injEq] at failed
    exact failed.1.symm
  | some _ => simp [written] at failed

end Program

open Program

/-- A failure of the generator comes from the registry, which leaves the folder as it is, from a file
that cannot be created, or from a name that is defined in two ways, once the files are created. -/
theorem outcome_generate_error {config : Config} {dir : String} {f after : Folder} {e : Failure}
    (failed : (generate config dir).outcome f = (.error e, after)) :
    (Registry.ofFolder f config.registry config.api = .error e ∧ after = f) ∨
      (∃ path, e = .file path) ∨
      ∃ r cause, Registry.ofFolder f config.registry config.api = .ok r ∧
        (Output.ofRegistry r config).run.value = .error cause ∧ e = .redefined cause ∧
        Folder.Emptied f after (config.outputs dir) := by
  unfold generate at failed
  rcases outcome_bind_error failed with failed | ⟨r, between, loaded, failed⟩
  · rw [Registry.outcome_load, Prod.mk.injEq] at failed
    exact .inl ⟨failed.1, failed.2.symm⟩
  rw [Registry.outcome_load, Prod.mk.injEq] at loaded
  obtain ⟨loaded, rfl⟩ := loaded
  rcases outcome_bind_error failed with failed | ⟨⟨⟩, first, made, failed⟩
  · exact .inr (.inl ⟨_, createFile_error failed⟩)
  rcases outcome_bind_error failed with failed | ⟨⟨⟩, second, made', failed⟩
  · exact .inr (.inl ⟨_, createFile_error failed⟩)
  rcases outcome_bind_error failed with failed | ⟨⟨⟩, third, made'', failed⟩
  · exact .inr (.inl ⟨_, createFile_error failed⟩)
  have emptied := (((Folder.Emptied.nil f).append (written_of_createFile made)).append
    (written_of_createFile made')).append (written_of_createFile made'')
  rw [outcome_bind, outcome_ofLogged] at failed
  dsimp only at failed
  cases result : (Output.ofRegistry r config).run.value with
  | error cause =>
    rw [result] at failed
    cases failed
    exact .inr (.inr ⟨r, cause, loaded, result, rfl, emptied⟩)
  | ok out =>
    -- Files that were created are written without fail.
    rw [result] at failed
    cases failed

theorem Registry.ofFolder_error {f : Folder} {path api : String} {e : Failure}
    (failed : Registry.ofFolder f path api = .error e) (cause : Redefined) : e ≠ .redefined cause := by
  unfold Registry.ofFolder at failed
  split at failed
  · cases failed
    nofun
  · cases failed
    nofun
  · split at failed
    · cases failed
      nofun
    · cases failed

theorem exists_outcome_of_redefined {config : Config} {dir : String} {f : Folder} {r : Registry}
    {cause : Redefined} (loaded : Registry.ofFolder f config.registry config.api = .ok r)
    (redefined : (Output.ofRegistry r config).run.value = .error cause)
    (writable : ∀ path ∈ config.outputs dir, (f.write? path []).isSome) :
    ∃ after, (generate config dir).outcome f = (.error (.redefined cause), after) := by
  simp only [Config.outputs, List.forall_mem_cons] at writable
  obtain ⟨writable, writable', writable'', -⟩ := writable
  obtain ⟨first, made⟩ := Option.isSome_iff_exists.1 writable
  have written := Folder.written_of_write? made
  rw [← written.isSome_write? _ []] at writable' writable''
  obtain ⟨second, made'⟩ := Option.isSome_iff_exists.1 writable'
  have written' := Folder.written_of_write? made'
  rw [← written'.isSome_write? _ []] at writable''
  obtain ⟨third, made''⟩ := Option.isSome_iff_exists.1 writable''
  refine ⟨third, ?_⟩
  unfold generate
  rw [outcome_bind_ok (by rw [Registry.outcome_load, loaded]), outcome_bind_ok (createFile_ok made),
    outcome_bind_ok (createFile_ok made'), outcome_bind_ok (createFile_ok made''), outcome_bind,
    outcome_ofLogged, redefined]
  rfl

/-- A registry that cannot be read leaves the folder as it is. A name that is defined in two ways
leaves the three files empty, whatever they held before. -/
theorem generate_failed (config : Config) (dir : String) (f : Folder) :
    (∀ cause after, (generate config dir).outcome f = (.error (.registry cause), after) →
      after = f) ∧
    (∀ cause after, (generate config dir).outcome f = (.error (.redefined cause), after) →
      Folder.Emptied f after (config.outputs dir)) ∧
    ∀ r cause, Registry.ofFolder f config.registry config.api = .ok r →
      (Output.ofRegistry r config).run.value = .error cause →
      (∀ path ∈ config.outputs dir, (f.write? path []).isSome) →
      ∃ after, (generate config dir).outcome f = (.error (.redefined cause), after) := by
  refine ⟨fun cause after failed => ?_, fun cause after failed => ?_,
    fun r cause => exists_outcome_of_redefined⟩
  · rcases outcome_generate_error failed with ⟨-, same⟩ | ⟨path, other⟩ | ⟨_, _, _, _, other, _⟩
    · exact same
    · cases other
    · cases other
  · rcases outcome_generate_error failed with ⟨unread, -⟩ | ⟨path, other⟩ | ⟨_, _, _, _, _, emptied⟩
    · exact absurd rfl (Registry.ofFolder_error unread cause)
    · cases other
    · exact emptied

-- One name for types of two kinds, and an older file that may not be lost.
def driftConfig : Config where
  registry := "registry.xml"
  outputName := "out"

def driftText : String :=
  "<registry><types><type name=\"VkTurn\" category=\"enum\"/>" ++
    "<type name=\"VkTurn\" category=\"handle\"/></types></registry>"

def driftRegistry : Registry where
  types := [{ name := "VkTurn", category := .enum }, { name := "VkTurn", category := .handle }]

def folderWith (text : String) : Folder where
  files := [(["registry.xml"], Text.Utf8.encode text),
    (["out.go"], Text.Utf8.encode "package vks\n")]

theorem drift_failed :
    (∃ after, (generate driftConfig ".").outcome (folderWith driftText) =
        (.error (.redefined ⟨"VkTurn"⟩), after) ∧
      Folder.Emptied (folderWith driftText) after (driftConfig.outputs ".")) ∧
    (generate driftConfig ".").outcome (folderWith "<registry>") =
      (.error (.registry .endOfDocument), folderWith "<registry>") := by
  have loaded : Registry.ofFolder (folderWith driftText) driftConfig.registry driftConfig.api =
      .ok driftRegistry := by decide +kernel
  have redefined : (Output.ofRegistry driftRegistry driftConfig).run.value = .error ⟨"VkTurn"⟩ := rfl
  have writable : ∀ path ∈ driftConfig.outputs ".",
      ((folderWith driftText).write? path []).isSome := by decide +kernel
  obtain ⟨-, emptied, fails⟩ := generate_failed driftConfig "." (folderWith driftText)
  obtain ⟨after, failed⟩ := fails driftRegistry ⟨"VkTurn"⟩ loaded redefined writable
  refine ⟨⟨after, failed, emptied _ after failed⟩, ?_⟩
  have torn : ((generate driftConfig ".").outcome (folderWith "<registry>")).1 =
      .error (.registry .endOfDocument) := by decide +kernel
  obtain ⟨result, after', ran⟩ : ∃ result after',
      (generate driftConfig ".").outcome (folderWith "<registry>") = (result, after') := ⟨_, _, rfl⟩
  rw [ran] at torn
  obtain rfl : result = .error (.registry .endOfDocument) := torn
  rw [ran, (generate_failed driftConfig "." _).1 _ _ ran]

/-- A name that is defined in two ways empties a file that was there, and leaves an empty one where
there was none. -/
theorem drift_loses_files :
    ∃ after, (generate driftConfig ".").outcome (folderWith driftText) =
        (.error (.redefined ⟨"VkTurn"⟩), after) ∧
      (folderWith driftText).look "./out.go" = some (.file (Text.Utf8.encode "package vks\n")) ∧
      after.look "./out.go" = some (.file []) ∧
      (folderWith driftText).look "./out.h" = none ∧ after.look "./out.h" = some (.file []) := by
  refine ⟨((generate driftConfig ".").outcome (folderWith driftText)).2, ?_, ?_, ?_, ?_, ?_⟩ <;>
    decide +kernel

end VulkanBindings
