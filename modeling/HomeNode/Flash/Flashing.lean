-- SUMMARY: flash_with_idf: its check of the build directory, the command it makes of flasher_args.json, and how it ends.
import HomeNode.Flash.Artifact

/-!
# Flashing

`flash_with_idf` of `flash_firmware.py` checks that a directory looks like a build,
reads `flasher_args.json` in it and starts esptool with the addresses and files
listed there. The tree is the whole file system, and `build` the resolved
`build_path` in it.
-/

namespace HomeNode.Flash

open FileTree

abbrev Str := List Char

/-- What `json.load` makes of a text. An object is a dict, with its items in their order. -/
inductive Json where
  | null
  | bool (b : Bool)
  | number (literal : Str)
  | string (s : Str)
  | array (elems : List Json)
  | object (items : List (Str × Json))

/-- The exceptions that `flash_with_idf` lets through. -/
inductive PyError where
  | fileNotFound
  | isADirectory
  /-- `json.load` refuses the text. -/
  | jsonDecode
  | key (key : Str)
  | type
  | attribute
  /-- Whatever else `subprocess.run` raises. -/
  | spawn
  deriving DecidableEq

/-- `j[key]`. Only a dict can be asked for a string. -/
def Json.getItem (j : Json) (key : Str) : Except PyError Json :=
  match j with
  | .object items => (items.lookup key).elim (.error (.key key)) .ok
  | _ => .error .type

/-- `j.items()` -/
def Json.items (j : Json) : Except PyError (List (Str × Json)) :=
  match j with
  | .object items => .ok items
  | _ => .error .attribute

/-- `" ".join` over the arguments, which have to be strings for it. -/
def joined : List Json → Except PyError (List Str)
  | [] => .ok []
  | .string s :: js => do return s :: (← joined js)
  | _ :: _ => .error .type

/-- How `subprocess.run` ends: the process is started and exits with a status, there is no such
program, or another exception is raised before it is started. -/
inductive Popen where
  | exits (status : Int)
  | fileNotFound
  | raises
  deriving DecidableEq

/-- What `flash_with_idf` returns or raises, and the command it has started. -/
structure Outcome where
  ran : Option (List Str) := none
  result : Except PyError Bool
  deriving DecidableEq

variable {α : Type}

def flashSettingsKey : Str := "flash_settings".toList
def flashModeKey : Str := "flash_mode".toList
def flashFreqKey : Str := "flash_freq".toList
def flashSizeKey : Str := "flash_size".toList
def flashFilesKey : Str := "flash_files".toList

def requiredStructure (build : TreePath) : List TreePath :=
  [bootloaderBin :: bootloader :: build, partitionTableBin :: partitionTable :: build]

/-- The names that `glob("*.bin")` gives, hidden ones and directories too, without those that
start like another part of the firmware. -/
def mainBins (t : FileTree α) (build : TreePath) : List Name :=
  (t.names build).filter fun n =>
    binExt.isSuffixOf n && !(bootloader.isPrefixOf n || "partition".toList.isPrefixOf n)

def missingFiles (t : FileTree α) (build : TreePath) : List TreePath :=
  (requiredStructure build).filter fun p => (t.find p).isNone

/-- The check that comes first. -/
def looksBuilt (t : FileTree α) (build : TreePath) : Bool :=
  (missingFiles t build).isEmpty && !(mainBins t build).isEmpty

/-- `open` and `json.load` of `flasher_args.json` -/
def loadFlasherArgs (jsonLoad : α → Option Json) (t : FileTree α) (build : TreePath) :
    Except PyError Json :=
  match t.find (flasherArgsJson :: build) with
  | none => .error .fileNotFound
  | some .dir => .error .isADirectory
  | some (.file c) => (jsonLoad c).elim (.error .jsonDecode) .ok

/-- The arguments that do not come from `flasher_args.json`, up to the settings. -/
def esptoolArgs (executable chip port : Str) : List Str :=
  [executable, "-m".toList, "esptool".toList, "--chip".toList, chip, "--port".toList, port,
    "--baud".toList, "460800".toList, "write_flash".toList]

def esptoolCmd (executable chip port : Str) (args : Json) : Except PyError (List Json) := do
  let mode ← (← args.getItem flashSettingsKey).getItem flashModeKey
  let freq ← (← args.getItem flashSettingsKey).getItem flashFreqKey
  let size ← (← args.getItem flashSettingsKey).getItem flashSizeKey
  let files ← (← args.getItem flashFilesKey).items
  return (esptoolArgs executable chip port).map .string ++
    [.string "--flash_mode".toList, mode, .string "--flash_freq".toList, freq,
      .string "--flash_size".toList, size] ++
    files.flatMap fun p => [.string p.1, p.2]

/-- Everything that can raise before `subprocess.run`. -/
def prepareCmd (jsonLoad : α → Option Json) (executable chip port : Str) (t : FileTree α)
    (build : TreePath) : Except PyError (List Str) := do
  let args ← loadFlasherArgs jsonLoad t build
  joined (← esptoolCmd executable chip port args)

def flashWithIdf (jsonLoad : α → Option Json) (popen : Popen) (executable port chip : Str)
    (t : FileTree α) (build : TreePath) : Outcome :=
  if looksBuilt t build then
    match prepareCmd jsonLoad executable chip port t build with
    | .error e => { result := .error e }
    | .ok cmd =>
      match popen with
      | .exits status => { ran := some cmd, result := .ok (status == 0) }
      | .fileNotFound => { result := .ok false }
      | .raises => { result := .error .spawn }
  else
    { result := .ok false }

/-! ## What flasher_args.json says -/

/-- The content of a proper `flasher_args.json`. -/
structure FlasherArgs where
  flashMode : Str
  flashFreq : Str
  flashSize : Str
  flashFiles : List (Str × Str)

/-- The JSON value has the settings and the map of `a`, all of them strings. -/
def FlasherArgs.In (a : FlasherArgs) (j : Json) : Prop :=
  ∃ items settings, j = .object items ∧
    items.lookup flashSettingsKey = some (.object settings) ∧
    settings.lookup flashModeKey = some (.string a.flashMode) ∧
    settings.lookup flashFreqKey = some (.string a.flashFreq) ∧
    settings.lookup flashSizeKey = some (.string a.flashSize) ∧
    items.lookup flashFilesKey =
      some (.object (a.flashFiles.map fun p => (p.1, .string p.2)))

def FlasherArgs.command (executable chip port : Str) (a : FlasherArgs) : List Str :=
  esptoolArgs executable chip port ++
    ["--flash_mode".toList, a.flashMode, "--flash_freq".toList, a.flashFreq,
      "--flash_size".toList, a.flashSize] ++
    a.flashFiles.flatMap fun p => [p.1, p.2]

variable {jsonLoad : α → Option Json} {executable chip port : Str} {t : FileTree α}
  {build : TreePath}

theorem bind_eq_ok_iff {β γ : Type} {x : Except PyError β} {f : β → Except PyError γ} {c : γ} :
    x >>= f = .ok c ↔ ∃ b, x = .ok b ∧ f b = .ok c := by
  cases x <;> simp [bind, Except.bind]

theorem getItem_eq_ok_iff {j v : Json} {key : Str} :
    j.getItem key = .ok v ↔ ∃ items, j = .object items ∧ items.lookup key = some v := by
  cases j with
  | object items => cases h : items.lookup key <;> simp [Json.getItem, h]
  | _ => simp [Json.getItem]

theorem items_eq_ok_iff {j : Json} {items : List (Str × Json)} :
    j.items = .ok items ↔ j = .object items := by
  cases j <;> simp [Json.items]

/-- Only strings are joined. -/
theorem joined_eq_ok_iff {js : List Json} {ss : List Str} :
    joined js = .ok ss ↔ js = ss.map .string := by
  induction js generalizing ss with
  | nil => simp [joined, eq_comm]
  | cons j js ih =>
    cases j with
    | string s =>
      rw [joined, bind_eq_ok_iff]
      cases ss with
      | nil => simp [pure, Except.pure]
      | cons s' ss => simp [pure, Except.pure, ih, and_comm]
    | _ => cases ss <;> simp [joined]

/-- A map whose values are all strings. -/
theorem exists_strings {items : List (Str × Json)} (h : ∀ p ∈ items, ∃ s, p.2 = .string s) :
    ∃ files : List (Str × Str), items = files.map fun p => (p.1, .string p.2) := by
  induction items with
  | nil => exact ⟨[], rfl⟩
  | cons p items ih =>
    obtain ⟨s, hs⟩ := h p (by simp)
    obtain ⟨files, rfl⟩ := ih fun q hq => h q (by simp [hq])
    exact ⟨(p.1, s) :: files, by simp [← hs]⟩

theorem map_command (a : FlasherArgs) :
    (a.command executable chip port).map Json.string =
      (esptoolArgs executable chip port).map .string ++
        [.string "--flash_mode".toList, .string a.flashMode,
          .string "--flash_freq".toList, .string a.flashFreq,
          .string "--flash_size".toList, .string a.flashSize] ++
        (a.flashFiles.map fun p => (p.1, Json.string p.2)).flatMap fun p => [.string p.1, p.2] := by
  simp [FlasherArgs.command, List.flatMap_map, List.map_flatMap]

/-- What the command needs of the JSON value. -/
theorem esptoolCmd_eq_ok {j : Json} {js : List Json}
    (h : esptoolCmd executable chip port j = .ok js) :
    ∃ items settings mode freq size files, j = .object items ∧
      items.lookup flashSettingsKey = some (.object settings) ∧
      settings.lookup flashModeKey = some mode ∧ settings.lookup flashFreqKey = some freq ∧
      settings.lookup flashSizeKey = some size ∧
      items.lookup flashFilesKey = some (.object files) ∧
      js = (esptoolArgs executable chip port).map .string ++
        [.string "--flash_mode".toList, mode, .string "--flash_freq".toList, freq,
          .string "--flash_size".toList, size] ++
        files.flatMap fun p => [.string p.1, p.2] := by
  simp only [esptoolCmd, bind_eq_ok_iff, getItem_eq_ok_iff, items_eq_ok_iff] at h
  obtain ⟨_, ⟨items, rfl, hsettings⟩, mode, ⟨settings, rfl, hmode⟩, h⟩ := h
  -- the settings are looked up again for each of the three
  obtain ⟨v, ⟨_, hj, hv⟩, freq, ⟨_, rfl, hfreq⟩, h⟩ := h
  obtain rfl := Json.object.inj hj
  obtain rfl := Json.object.inj (Option.some.inj (hsettings.symm.trans hv))
  obtain ⟨v, ⟨_, hj, hv⟩, size, ⟨_, rfl, hsize⟩, h⟩ := h
  obtain rfl := Json.object.inj hj
  obtain rfl := Json.object.inj (Option.some.inj (hsettings.symm.trans hv))
  obtain ⟨_, ⟨_, hj, hfiles⟩, files, rfl, hjs⟩ := h
  obtain rfl := Json.object.inj hj
  exact ⟨items, settings, mode, freq, size, files, rfl, hsettings, hmode, hfreq, hsize, hfiles,
    (Except.ok.inj hjs).symm⟩

/-- The command can be made exactly of a proper `flasher_args.json`, and is its own. -/
theorem command_iff {j : Json} {cmd : List Str} :
    esptoolCmd executable chip port j >>= joined = .ok cmd ↔
      ∃ a : FlasherArgs, a.In j ∧ cmd = a.command executable chip port := by
  constructor
  · intro h
    obtain ⟨js, hcmd, hjoin⟩ := bind_eq_ok_iff.mp h
    obtain ⟨items, settings, mode, freq, size, files, rfl, hsettings, hmode, hfreq, hsize, hfiles,
      rfl⟩ := esptoolCmd_eq_ok hcmd
    rw [joined_eq_ok_iff] at hjoin
    -- whatever is joined is a string
    have hstring : ∀ v ∈ cmd.map Json.string, ∃ s, v = .string s := by
      intro v hv
      obtain ⟨s, -, rfl⟩ := List.mem_map.mp hv
      exact ⟨s, rfl⟩
    rw [← hjoin] at hstring
    obtain ⟨mode, rfl⟩ := hstring mode (by simp)
    obtain ⟨freq, rfl⟩ := hstring freq (by simp)
    obtain ⟨size, rfl⟩ := hstring size (by simp)
    obtain ⟨files, rfl⟩ := exists_strings fun p hp => hstring p.2 (by
      apply List.mem_append_right
      exact List.mem_flatMap.mpr ⟨p, hp, by simp⟩)
    refine ⟨⟨mode, freq, size, files⟩,
      ⟨items, settings, rfl, hsettings, hmode, hfreq, hsize, hfiles⟩, ?_⟩
    apply List.map_injective_iff.mpr fun _ _ => Json.string.inj
    rw [map_command, ← hjoin]
  · rintro ⟨a, ⟨items, settings, rfl, hsettings, hmode, hfreq, hsize, hfiles⟩, rfl⟩
    rw [bind_eq_ok_iff]
    refine ⟨_, ?_, joined_eq_ok_iff.mpr rfl⟩
    rw [map_command]
    simp only [esptoolCmd, Json.getItem, Json.items, hsettings, hmode, hfreq, hsize, hfiles,
      Option.elim, bind, Except.bind, pure, Except.pure]

/-! ## Only a complete build is flashed -/

/-- `flasher_args.json` of the build directory holds `a`. -/
def FlasherArgs.LoadedFrom (a : FlasherArgs) (jsonLoad : α → Option Json) (t : FileTree α)
    (build : TreePath) : Prop :=
  ∃ j, (t.content (flasherArgsJson :: build)).bind jsonLoad = some j ∧ a.In j

/-- A path that is given to esptool, which runs in the build directory, is a file there. -/
def inBuild (t : FileTree α) (build : TreePath) (f : Str) : Bool :=
  (t.resolve build f).elim false fun p => build.isSuffixOf p && t.isFile p

def FlasherArgs.Complete (a : FlasherArgs) (t : FileTree α) (build : TreePath) : Prop :=
  ∀ p ∈ a.flashFiles, inBuild t build p.2 = true

/-- esptool is started with a complete build only, and with exactly its addresses and files as
the arguments after the settings. Else the function returns `False`. -/
def FlashesOnlyComplete (jsonLoad : α → Option Json) (t : FileTree α) (build : TreePath)
    (o : Outcome) : Prop :=
  match o.ran with
  | some cmd => ∃ a : FlasherArgs, a.LoadedFrom jsonLoad t build ∧ a.Complete t build ∧
      cmd.drop 16 = a.flashFiles.flatMap fun p => [p.1, p.2]
  | none => o.result = .ok false

/-- The check of the directory fails; or a proper `flasher_args.json` is there, and the start
of the process finds all its files or no program, and raises nothing else. -/
def Prepared (jsonLoad : α → Option Json) (popen : Popen) (t : FileTree α) (build : TreePath) :
    Prop :=
  looksBuilt t build = false ∨
    ∃ a : FlasherArgs, a.LoadedFrom jsonLoad t build ∧
      match popen with
      | .exits _ => a.Complete t build
      | .fileNotFound => True
      | .raises => False

theorem loadFlasherArgs_eq_ok_iff {j : Json} :
    loadFlasherArgs jsonLoad t build = .ok j ↔
      (t.content (flasherArgsJson :: build)).bind jsonLoad = some j := by
  unfold loadFlasherArgs FileTree.content
  cases t.find (flasherArgsJson :: build) with
  | none => simp
  | some e =>
    cases e with
    | dir => simp
    | file c => cases h : jsonLoad c <;> simp [h]

theorem prepareCmd_eq_ok_iff {cmd : List Str} :
    prepareCmd jsonLoad executable chip port t build = .ok cmd ↔
      ∃ a : FlasherArgs, a.LoadedFrom jsonLoad t build ∧
        cmd = a.command executable chip port := by
  have hcmd : prepareCmd jsonLoad executable chip port t build =
      loadFlasherArgs jsonLoad t build >>= fun j => esptoolCmd executable chip port j >>= joined :=
    rfl
  rw [hcmd, bind_eq_ok_iff]
  constructor
  · rintro ⟨j, hj, h⟩
    obtain ⟨a, ha, rfl⟩ := command_iff.mp h
    exact ⟨a, ⟨j, loadFlasherArgs_eq_ok_iff.mp hj, ha⟩, rfl⟩
  · rintro ⟨a, ⟨j, hj, ha⟩, rfl⟩
    exact ⟨j, loadFlasherArgs_eq_ok_iff.mpr hj, command_iff.mpr ⟨a, ha, rfl⟩⟩

theorem FlasherArgs.LoadedFrom.prepareCmd {a : FlasherArgs} (ha : a.LoadedFrom jsonLoad t build)
    (executable chip port : Str) :
    prepareCmd jsonLoad executable chip port t build = .ok (a.command executable chip port) :=
  prepareCmd_eq_ok_iff.mpr ⟨a, ha, rfl⟩

theorem drop_command (a : FlasherArgs) :
    (a.command executable chip port).drop 16 = a.flashFiles.flatMap fun p => [p.1, p.2] := rfl

theorem flashesOnlyComplete_iff (jsonLoad : α → Option Json) (popen : Popen)
    (executable port chip : Str) (t : FileTree α) (build : TreePath) :
    FlashesOnlyComplete jsonLoad t build
        (flashWithIdf jsonLoad popen executable port chip t build) ↔
      Prepared jsonLoad popen t build := by
  unfold Prepared flashWithIdf
  cases hlooks : looksBuilt t build with
  | false => simp [FlashesOnlyComplete]
  | true =>
    cases hprep : prepareCmd jsonLoad executable chip port t build with
    | error e =>
      -- an exception, since no proper flasher_args.json is there
      have hnone : ∀ a : FlasherArgs, ¬ a.LoadedFrom jsonLoad t build := by
        intro a ha
        have hok := ha.prepareCmd executable chip port
        rw [hprep] at hok
        cases hok
      simp [FlashesOnlyComplete, hnone]
    | ok cmd =>
      obtain ⟨a, ha, -⟩ := prepareCmd_eq_ok_iff.mp hprep
      cases popen with
      | exits status =>
        have hargs : ∀ a' : FlasherArgs, a'.LoadedFrom jsonLoad t build →
            cmd.drop 16 = a'.flashFiles.flatMap fun p => [p.1, p.2] := by
          intro a' ha'
          have hok := hprep.symm.trans (ha'.prepareCmd executable chip port)
          rw [Except.ok.inj hok, drop_command]
        simp only [FlashesOnlyComplete, if_true, Bool.true_eq_false, false_or]
        constructor
        · rintro ⟨a', ha', hcomplete, -⟩
          exact ⟨a', ha', hcomplete⟩
        · rintro ⟨a', ha', hcomplete⟩
          exact ⟨a', ha', hcomplete, hargs a' ha'⟩
      | fileNotFound => simpa [FlashesOnlyComplete] using ⟨a, ha⟩
      | raises => simp [FlashesOnlyComplete]

/-- The text of a `flasher_args.json` with one file, at 0x10000. -/
def homeNodeArgsText : Str :=
  "\x7b\"flash_settings\": \x7b\"flash_mode\": \"dio\", \"flash_freq\": \"40m\", ".toList ++
  "\"flash_size\": \"4MB\"\x7d, \"flash_files\": \x7b\"0x10000\": \"home-node.bin\"\x7d\x7d".toList

def homeNodeArgs : FlasherArgs :=
  ⟨"dio".toList, "40m".toList, "4MB".toList, [("0x10000".toList, "home-node.bin".toList)]⟩

/-- What `json.load` makes of that text. -/
def homeNodeJsonLoad (text : Str) : Option Json :=
  if text = homeNodeArgsText then
    some (.object
      [(flashSettingsKey, .object
        [(flashModeKey, .string homeNodeArgs.flashMode),
          (flashFreqKey, .string homeNodeArgs.flashFreq),
          (flashSizeKey, .string homeNodeArgs.flashSize)]),
        (flashFilesKey, .object (homeNodeArgs.flashFiles.map fun p => (p.1, .string p.2)))])
  else
    none

/-- A build without its application: the only binary in its root is the OTA data image. -/
def otaDataOnlyBuild : Option (FileTree Str) := do
  let t ← FileTree.empty.mkdir [buildName]
  let t ← t.mkdir [bootloader, buildName]
  let t ← t.write [bootloaderBin, bootloader, buildName] []
  let t ← t.mkdir [partitionTable, buildName]
  let t ← t.write [partitionTableBin, partitionTable, buildName] []
  t.write ["ota_data_initial.bin".toList, buildName] []

/-- With that `flasher_args.json` esptool is started although `home-node.bin` is not there, and
without one an exception is raised. -/
theorem not_flashesOnlyComplete :
    ∃ t u : FileTree Str, otaDataOnlyBuild = some t ∧
      t.write [flasherArgsJson, buildName] homeNodeArgsText = some u ∧
      ¬ FlashesOnlyComplete homeNodeJsonLoad u [buildName]
        (flashWithIdf homeNodeJsonLoad (.exits 2) "python3".toList "COM5".toList "esp32".toList u
          [buildName]) ∧
      ¬ FlashesOnlyComplete homeNodeJsonLoad t [buildName]
        (flashWithIdf homeNodeJsonLoad (.exits 0) "python3".toList "COM5".toList "esp32".toList t
          [buildName]) := by
  have hsome : (otaDataOnlyBuild.bind fun t =>
      t.write [flasherArgsJson, buildName] homeNodeArgsText).isSome = true := by decide +kernel
  have hgiven : ∀ u ∈ otaDataOnlyBuild.bind fun t =>
      t.write [flasherArgsJson, buildName] homeNodeArgsText,
      (flashWithIdf homeNodeJsonLoad (.exits 2) "python3".toList "COM5".toList "esp32".toList u
          [buildName]).ran.map (List.drop 16) =
        some ["0x10000".toList, "home-node.bin".toList] ∧
      inBuild u [buildName] "home-node.bin".toList = false := by decide +kernel
  have hmissing : ∀ t ∈ otaDataOnlyBuild,
      flashWithIdf homeNodeJsonLoad (.exits 0) "python3".toList "COM5".toList "esp32".toList t
        [buildName] = { result := .error .fileNotFound } := by decide +kernel
  obtain ⟨u, hu⟩ := Option.isSome_iff_exists.mp hsome
  obtain ⟨t, ht, hwrite⟩ := Option.bind_eq_some_iff.mp hu
  refine ⟨t, u, ht, hwrite, ?_, ?_⟩
  · obtain ⟨hran, hout⟩ := hgiven u hu
    obtain ⟨cmd, hcmd, hdrop⟩ := Option.map_eq_some_iff.mp hran
    intro h
    simp only [FlashesOnlyComplete, hcmd] at h
    obtain ⟨a, -, hcomplete, hargs⟩ := h
    rw [hdrop] at hargs
    cases hfiles : a.flashFiles with
    | nil => simp [hfiles] at hargs
    | cons p ps =>
      have hfile : "home-node.bin".toList = p.2 := by simp_all
      have hin := hcomplete p (by simp [hfiles])
      rw [← hfile, hout] at hin
      cases hin
  · rw [hmissing t ht]
    simp [FlashesOnlyComplete]

end HomeNode.Flash
