import SourceSearch.Manifest
import SourceSearch.Proofs.JsonRoundTrip
import SourceSearch.Proofs.Store

/-!
# Manifests are read back from their text

A manifest is written as a plain value, which is read back from its text. In the value the members
of each object have distinct names, so a field is the member of its name, and a field that was left
out has the default it was left out for. The variables are inserted one after the other; as their
names are distinct, they come in the order in which they were written.
-/

set_option autoImplicit false

namespace SourceSearch

/-! ## The written value is plain -/

namespace Json

variable {limit : Nat}

theorem arePlain_iff {items : List Json} :
    arePlain limit items = true ↔ ∀ item ∈ items, item.isPlain limit = true := by
  induction items with
  | nil => simp [arePlain]
  | cons item items ih => simp [arePlain, ih]

@[simp] theorem isPlain_ofText (text : String) : (ofText text).isPlain limit = true := rfl

@[simp] theorem isPlain_ofTexts (texts : List String) :
    (ofTexts texts).isPlain (limit + 1) = true := by
  rw [ofTexts, isPlain, arePlain_iff]
  simp

theorem isPlain_ofMembers {members : List (String × Json)} :
    (ofMembers members).isPlain (limit + 1) = true ↔ ∀ m ∈ members, m.2.isPlain limit = true := by
  rw [ofMembers, isPlain]
  induction members with
  | nil => simp [membersArePlain]
  | cons m members ih => simp [membersArePlain, ih]

end Json

namespace Manifest

theorem isPlain_moduleMember {limit : Nat} (module : Option ModuleDescription) :
    ∀ m ∈ moduleMember module, m.2.isPlain (limit + 2) = true := by
  cases module <;> simp [moduleMember, Json.isPlain_ofMembers]

theorem isPlain_archiveJson {limit : Nat} (archive : ArchiveManifest) :
    (archiveJson archive).isPlain (limit + 3) = true := by
  have hmodule : ∀ m ∈ moduleMember archive.module, m.2.isPlain (limit + 2) = true :=
    isPlain_moduleMember archive.module
  rw [archiveJson, Json.isPlain_ofMembers]
  simpa [List.forall_mem_append] using hmodule

theorem isPlain_entryJson {limit : Nat} (entry : ClasspathEntry) :
    (entryJson entry).isPlain (limit + 1) = true := by
  cases entry <;> simp [entryJson, Json.isPlain_ofMembers, Json.isPlain]

theorem isPlain_projectJson {limit : Nat} (project : ProjectManifest) :
    (projectJson project).isPlain (limit + 3) = true := by
  have hmodule : ∀ m ∈ moduleMember project.module, m.2.isPlain (limit + 2) = true :=
    isPlain_moduleMember project.module
  have hentries : (Json.array (project.classpath.map entryJson)).isPlain (limit + 2) = true := by
    rw [Json.isPlain, Json.arePlain_iff]
    simp [isPlain_entryJson]
  rw [projectJson, Json.isPlain_ofMembers]
  simpa [List.forall_mem_append, hentries] using hmodule

/-- **A manifest is written as a plain value.** -/
theorem isPlain_toJson (manifest : Manifest) : manifest.toJson.isPlain 5 = true := by
  have harchives : (Json.array (manifest.archives.map archiveJson)).isPlain 4 = true := by
    rw [Json.isPlain, Json.arePlain_iff]
    simp [isPlain_archiveJson]
  have hprojects : (Json.array (manifest.projects.map projectJson)).isPlain 4 = true := by
    rw [Json.isPlain, Json.arePlain_iff]
    simp [isPlain_projectJson]
  have hvars : (Json.ofMembers (manifest.vars.entries.map fun v => (v.1, .ofText v.2))).isPlain 4 =
      true := by
    rw [Json.isPlain_ofMembers, List.forall_mem_map]
    exact fun v _ => rfl
  rw [toJson, Json.isPlain_ofMembers]
  simp [harchives, hvars, hprojects]

/-! ## Fields -/

theorem occurrences_cons (key : String) (value : Json) (members : List (Option String × Json))
    (name : String) : occurrences ((some key, value) :: members) name =
      if key = name then value :: occurrences members name else occurrences members name := by
  rw [occurrences, List.filter_cons]
  by_cases hkey : key = name
  · simp [hkey, occurrences]
  · simp [hkey, occurrences]

/-- A name that occurs among distinct names occurs once. -/
theorem occurrences_ofMembers {members : List (String × Json)}
    (hnames : (members.map (·.1)).Nodup) (name : String) :
    occurrences (members.map fun m => (some m.1, m.2)) name = (members.lookup name).toList := by
  induction members with
  | nil => rfl
  | cons m members ih =>
    obtain ⟨key, value⟩ := m
    rw [List.map_cons, List.nodup_cons] at hnames
    rw [List.map_cons, occurrences_cons, ih hnames.2, List.lookup_cons]
    by_cases hkey : key = name
    · subst hkey
      have hnone : members.lookup key = none := by
        rw [List.lookup_eq_none_iff]
        intro m hm
        simpa using fun h : key = m.1 => hnames.1 (List.mem_map.2 ⟨m, hm, h.symm⟩)
      simp [hnone]
    · have hfalse : (name == key) = false := by simpa using fun h => hkey h.symm
      simp [hkey, hfalse]

/-- **The members of an object of distinct names are found by their names.** -/
theorem fields?_ofMembers {members : List (String × Json)} (hnames : (members.map (·.1)).Nodup)
    (names : List String) :
    fields? names (.ofMembers members) = some (names.map fun name => members.lookup name) := by
  have hall : (members.map fun m => (some m.1, m.2)).all (·.1.isSome) = true := by simp
  rw [Json.ofMembers, fields?, membersOf?, if_pos hall]
  induction names with
  | nil => rfl
  | cons name names ih =>
    rw [List.mapM_cons, ih, occurrences_ofMembers hnames, List.map_cons]
    cases members.lookup name <;> rfl

/-- A list is read back when each of its items is. -/
theorem list?_array_map {α : Type} {read : Json → Option α} {write : α → Json}
    (h : ∀ a, read (write a) = some a) (as : List α) :
    list? read (.array (as.map write)) = some as := by
  rw [list?]
  induction as with
  | nil => rfl
  | cons a as ih =>
    rw [List.map_cons, List.mapM_cons, h, ih]
    rfl

theorem list?_ofTexts (texts : List String) : list? text? (.ofTexts texts) = some texts :=
  @list?_array_map String text? .ofText (fun _ => rfl) texts

/-- A module is read back from its member. -/
theorem nullable?_moduleMember (module : Option ModuleDescription) :
    withDefault? none (nullable? module?) ((moduleMember module).lookup "module") =
      some module := by
  cases module with
  | none => rfl
  | some module =>
    have hread : module? (.ofMembers [("name", .ofText module.name),
        ("requires", .ofTexts module.requires), ("exports", .ofTexts module.exports)]) =
          some module := by
      rw [module?, fields?_ofMembers (by simp)]
      simp [List.lookup_cons, withDefault?, list?_ofTexts, text?, Json.ofText]
    exact congrArg (Option.map some) hread

/-- The member of a module is called so, if it is there. -/
theorem names_moduleMember (module : Option ModuleDescription) :
    ((moduleMember module).map (·.1)).Sublist ["module"] := by
  cases module with
  | none => exact List.nil_sublist _
  | some module => exact List.Sublist.refl _

/-- **An archive is read back.** -/
theorem archive?_archiveJson (archive : ArchiveManifest) :
    archive? (archiveJson archive) = some archive := by
  obtain ⟨path, sources, module⟩ := archive
  have hnames : (([("path", Json.ofText path), ("sources", .ofText sources)] ++
      moduleMember module).map (·.1)).Nodup := by
    rw [List.map_append]
    exact List.Nodup.sublist ((names_moduleMember module).append_left _) (by simp)
  rw [archive?, archiveJson, fields?_ofMembers hnames]
  -- The literal names are told apart by evaluation; what stays is the member that may be left out.
  change (do return (⟨path, sources, ← withDefault? none (nullable? module?)
    ((moduleMember module).lookup "module")⟩ : ArchiveManifest)) = _
  rw [nullable?_moduleMember]
  rfl

/-- **An entry is read back.** -/
theorem entry?_entryJson (entry : ClasspathEntry) : entry? (entryJson entry) = some entry := by
  cases entry <;> rfl

/-- **A project is read back.** -/
theorem project?_projectJson (project : ProjectManifest) :
    project? (projectJson project) = some project := by
  obtain ⟨name, folders, classpath, module⟩ := project
  have hnames : (([("name", Json.ofText name), ("source_folders", .ofTexts folders),
      ("classpath", .array (classpath.map entryJson))] ++
        moduleMember module).map (·.1)).Nodup := by
    rw [List.map_append]
    exact List.Nodup.sublist ((names_moduleMember module).append_left _) (by simp)
  rw [project?, projectJson, fields?_ofMembers hnames]
  change (do return (⟨name, ← list? text? (.ofTexts folders),
    ← list? entry? (.array (classpath.map entryJson)), ← withDefault? none (nullable? module?)
      ((moduleMember module).lookup "module")⟩ : ProjectManifest)) = _
  rw [list?_ofTexts, list?_array_map entry?_entryJson, nullable?_moduleMember]
  rfl

/-! ## Variables -/

/-- **Variables of distinct names are read back in their order.** -/
theorem vars?_ofMembers {vars : Register String} (hnames : (vars.entries.map (·.1)).Nodup) :
    vars? (.ofMembers (vars.entries.map fun v : String × String => (v.1, .ofText v.2))) =
      some vars := by
  have hread : ((vars.entries.map fun v => (v.1, .ofText v.2)).map fun m => (some m.1, m.2)).mapM
      (fun m : Option String × Json => do return (← m.1, ← text? m.2)) = some vars.entries := by
    induction vars.entries with
    | nil => rfl
    | cons v entries ih =>
      rw [List.map_cons, List.map_cons, List.mapM_cons, ih]
      rfl
  rw [Json.ofMembers, vars?, hread]
  exact congrArg some (Register.foldl_insert vars.entries .empty hnames)

/-! ## Manifests -/

theorem ofJson?_toJson {manifest : Manifest} (hnames : (manifest.vars.entries.map (·.1)).Nodup) :
    ofJson? manifest.toJson = some manifest := by
  obtain ⟨archives, vars, projects⟩ := manifest
  rw [ofJson?, toJson, fields?_ofMembers (by simp)]
  change (do return (⟨← list? archive? (.array (archives.map archiveJson)),
    ← vars? (.ofMembers (vars.entries.map fun v : String × String => (v.1, .ofText v.2))),
    ← list? project? (.array (projects.map projectJson))⟩ : Manifest)) = _
  rw [list?_array_map archive?_archiveJson, vars?_ofMembers hnames,
    list?_array_map project?_projectJson]
  rfl

/-- **A manifest whose variables have distinct names is read back from its text**, with everything
in its order. -/
theorem read?_write {manifest : Manifest} (hnames : (manifest.vars.entries.map (·.1)).Nodup) :
    read? manifest.write = some manifest := by
  rw [read?, write, Json.read?_print manifest.isPlain_toJson]
  exact ofJson?_toJson hnames

/-- Quotes, backslashes, control characters and characters beyond sixteen bits come back, and so do
both kinds of archive, all kinds of entries, a project without folders and an empty name. -/
theorem read?_write_of_every_kind :
    (["z", "", "\"a\\"].Nodup) ∧
    read? (write ⟨[⟨"/lib/\"a\\.jar", "\t\u0001\u001f\n\r", none⟩,
        ⟨"/lib/😀.jar", "\x7fé", some ⟨"m", ["n", "\u0008"], []⟩⟩],
      ⟨[("z", "1"), ("", "2"), ("\"a\\", "\u000c/")]⟩,
      [⟨"P", [], [.library "/l", .variable "z", .project "Q" true, .project "" false], none⟩,
        ⟨"Q", [""], [], some ⟨"", [], ["p.q"]⟩⟩]⟩) =
    some ⟨[⟨"/lib/\"a\\.jar", "\t\u0001\u001f\n\r", none⟩,
        ⟨"/lib/😀.jar", "\x7fé", some ⟨"m", ["n", "\u0008"], []⟩⟩],
      ⟨[("z", "1"), ("", "2"), ("\"a\\", "\u000c/")]⟩,
      [⟨"P", [], [.library "/l", .variable "z", .project "Q" true, .project "" false], none⟩,
        ⟨"Q", [""], [], some ⟨"", [], ["p.q"]⟩⟩]⟩ :=
  ⟨by simp, read?_write (by simp)⟩

theorem nodup_of_vars? {value : Json} {vars : Register String} (h : vars? value = some vars) :
    (vars.entries.map (·.1)).Nodup := by
  unfold vars? at h
  split at h
  next members =>
    obtain ⟨pairs, -, hvars⟩ := Option.bind_eq_some_iff.1 h
    rw [← Option.some.inj hvars]
    exact Register.nodup_foldl_insert pairs .empty List.nodup_nil
  next => contradiction

/-- **The variables of a manifest that was read have distinct names.** -/
theorem nodup_names_of_read? {text : String} {manifest : Manifest}
    (h : read? text = some manifest) : (manifest.vars.entries.map (·.1)).Nodup := by
  obtain ⟨value, -, h⟩ := Option.bind_eq_some_iff.1 h
  obtain ⟨fields, -, h⟩ := Option.bind_eq_some_iff.1 h
  split at h
  next archives vars projects =>
    obtain ⟨archives, -, h⟩ := Option.bind_eq_some_iff.1 h
    obtain ⟨vars', hvars, h⟩ := Option.bind_eq_some_iff.1 h
    obtain ⟨projects, -, h⟩ := Option.bind_eq_some_iff.1 h
    rw [← Option.some.inj h]
    cases vars with
    | none => rw [← Option.some.inj hvars]; exact List.nodup_nil
    | some value => exact nodup_of_vars? hvars
  next => contradiction

/-- **What is read, written and read again is the same manifest**, whatever the first text left out,
repeated or added. -/
theorem read?_write_of_read? {text : String} {manifest : Manifest}
    (h : read? text = some manifest) : read? manifest.write = some manifest := by
  rw [read?, write, Json.read?_print manifest.isPlain_toJson]
  exact ofJson?_toJson (nodup_names_of_read? h)

end Manifest
end SourceSearch
