import Manuscript.Proofs.Disk.Name
import Manuscript.Proofs.OrderedMap
import Manuscript.Proofs.Paper.Findings

/-! The section files of a folder. They are those that end in `.json` and are no record, in the byte order of
their names. A file that is not JSON is left out, with one finding of its own, and every other one is put under
its stem as it is shown. Names that are not texts can be shown alike; then the last file takes the place of the
others, and nothing says so. -/
namespace Manuscript.Paper

structure SectionFile where
  stem : List UInt8
  bytes : List UInt8
  deriving DecidableEq, Repr

namespace SectionFile

def name (f : SectionFile) : FileName := ⟨f.stem ++ Text.toUtf8 ".json"⟩

def key (f : SectionFile) : String := Text.lossy f.stem

def path (folder : String) (f : SectionFile) : String := Path.join folder f.name.shown

def file (folder : String) (f : SectionFile) : File := ⟨f.path folder, f.key, f.bytes⟩

def isJson (f : SectionFile) : Bool := (Json.read f.bytes).isOk

/-- A file of the folder that ends in `.json` and is no record. -/
structure In (d : Disk) (folder : String) (s : Settings) (f : SectionFile) : Prop where
  listed : ∃ names, d.names folder = .ok names ∧ f.name ∈ names
  stem_ne_nil : f.stem ≠ []
  entry : d.entry folder f.name = .file f.bytes
  not_contents : ∀ text, f.name = .ofText text →
    Path.same (Path.join folder text) (contentsPath folder s) = false
  not_bibliography : ∀ text, f.name = .ofText text →
    Path.same (Path.join folder text) (bibliographyPath folder s) = false
  not_bibitem : ∀ text, f.name = .ofText text →
    Path.same (Path.join folder text) (bibitemPath folder s) = false

def keyed? (f : SectionFile) : Option (String × List (Block String)) :=
  match Json.read f.bytes with
  | .ok v => some (f.key, (Record.loadSection f.key v).value)
  | .error _ => none

end SectionFile

variable {d : Disk} {folder : String} {s : Settings} {name : FileName} {names : List FileName}
variable {f g : SectionFile} {files : List SectionFile}

theorem SectionFile.bytes_name (f : SectionFile) :
    f.name.bytes = f.stem ++ FileName.dot :: Text.toUtf8 "json" := rfl

theorem SectionFile.name_inj : f.name = g.name ↔ f.stem = g.stem := by
  simp [SectionFile.name]

theorem dot_notMem_json : FileName.dot ∉ Text.toUtf8 "json" := by decide

/-- The dot is where a name parts also as it is shown. -/
theorem SectionFile.shown_name (f : SectionFile) : f.name.shown = f.key ++ ".json" := by
  have hext : Text.lossy (FileName.dot :: Text.toUtf8 "json") = ".json" := by decide +kernel
  rw [FileName.shown, f.bytes_name, Text.lossy_append_ascii (by decide), hext, SectionFile.key]

theorem SectionFile.name_eq_of_text {text : String} (h : f.name = .ofText text) :
    f.name = .ofText (f.key ++ ".json") := by
  rw [← f.shown_name, h, FileName.shown_ofText]

/-! The files that are read. -/

def sectionFile? (d : Disk) (folder : String) (s : Settings) (name : FileName) :
    Option SectionFile :=
  if isSection folder s name then
    match d.entry folder name with
    | .file bytes => some ⟨(splitName FileName.dot name.bytes).1, bytes⟩
    | _ => none
  else none

theorem isSection_iff : isSection folder s name = true ↔
    (∃ stem, name.bytes = stem ++ FileName.dot :: Text.toUtf8 "json" ∧ stem ≠ []) ∧
      ∀ text, name = .ofText text → isRecord folder s (Path.join folder text) = false := by
  have hrecord : (name.text?.any fun text => isRecord folder s (Path.join folder text)) = false ↔
      ∀ text, name = .ofText text → isRecord folder s (Path.join folder text) = false := by
    simp only [← FileName.text?_eq_some_iff]
    cases name.text? <;> simp
  simp only [isSection, Bool.and_eq_true, beq_iff_eq, Bool.not_eq_true', hrecord,
    FileName.extension?_eq_some_iff, dot_notMem_json, not_false_eq_true, and_true]

theorem sectionFile?_eq_some_iff : sectionFile? d folder s name = some f ↔
    f.name = name ∧ f.stem ≠ [] ∧ d.entry folder f.name = .file f.bytes ∧
      ∀ text, f.name = .ofText text → isRecord folder s (Path.join folder text) = false := by
  constructor
  · intro hf
    unfold sectionFile? at hf
    split at hf
    · next hsection =>
      obtain ⟨⟨stem, hname, hstem⟩, hrecord⟩ := isSection_iff.mp hsection
      split at hf
      · next bytes hentry =>
        cases hf
        rw [splitName_eq_iff.mpr ⟨hname, hstem, dot_notMem_json⟩]
        have hfname : SectionFile.name ⟨stem, bytes⟩ = name := by
          rw [FileName.mk.injEq (SectionFile.name ⟨stem, bytes⟩).bytes name.bytes]
          exact hname.symm
        exact ⟨hfname, hstem, hfname ▸ hentry, hfname ▸ hrecord⟩
      · cases hf
    · cases hf
  · rintro ⟨rfl, hstem, hentry, hrecord⟩
    have hsection : isSection folder s f.name = true :=
      isSection_iff.mpr ⟨⟨f.stem, f.bytes_name, hstem⟩, hrecord⟩
    have hsplit := splitName_eq_iff.mpr ⟨f.bytes_name, hstem, dot_notMem_json⟩
    simp only [sectionFile?, hsection, if_true, hentry, hsplit]

theorem sectionFile?_eq_some_iff_in (hnames : d.names folder = .ok names) :
    (∃ name ∈ names, sectionFile? d folder s name = some f) ↔ f.In d folder s := by
  have hrecord : (∀ text, f.name = .ofText text → isRecord folder s (Path.join folder text) = false) ↔
      ∀ text, f.name = .ofText text →
        Path.same (Path.join folder text) (contentsPath folder s) = false ∧
          Path.same (Path.join folder text) (bibliographyPath folder s) = false ∧
          Path.same (Path.join folder text) (bibitemPath folder s) = false := by
    simp only [isRecord, Bool.or_eq_false_iff, and_assoc]
  simp only [sectionFile?_eq_some_iff, hrecord]
  constructor
  · rintro ⟨name, hname, rfl, hstem, hentry, hno⟩
    exact ⟨⟨names, hnames, hname⟩, hstem, hentry, fun text ht => (hno text ht).1,
      fun text ht => (hno text ht).2.1, fun text ht => (hno text ht).2.2⟩
  · intro hf
    obtain ⟨names', hnames', hname⟩ := hf.listed
    rw [hnames] at hnames'
    cases hnames'
    exact ⟨f.name, hname, rfl, hf.stem_ne_nil, hf.entry, fun text ht =>
      ⟨hf.not_contents text ht, hf.not_bibliography text ht, hf.not_bibitem text ht⟩⟩

def sorted (names : List FileName) : List FileName :=
  names.mergeSort fun a b => !decide (b.bytes < a.bytes)

theorem pairwise_sorted (h : names.Nodup) :
    (sorted names).Pairwise fun a b => a.bytes < b.bytes := by
  have hle : (sorted names).Pairwise fun a b => (!decide (b.bytes < a.bytes)) = true := by
    apply List.pairwise_mergeSort
    · intro a b c hab hbc
      simp only [Bool.not_eq_true', decide_eq_false_iff_not, List.not_lt] at *
      exact List.le_trans hab hbc
    · intro a b
      simp only [Bool.or_eq_true, Bool.not_eq_true', decide_eq_false_iff_not, List.not_lt]
      exact List.le_total a.bytes b.bytes
  have hne : (sorted names).Nodup := (List.mergeSort_perm names _).nodup_iff.mpr h
  refine (hle.and hne).imp ?_
  rintro ⟨a⟩ ⟨b⟩ ⟨hab, hne⟩
  simp only [Bool.not_eq_true', decide_eq_false_iff_not, List.not_lt] at hab
  exact Std.lt_of_le_of_ne hab fun h => hne (congrArg FileName.mk h)

theorem mem_sorted : name ∈ sorted names ↔ name ∈ names := List.mem_mergeSort

theorem mapM_eq_ok {α β ε : Type} {step : α → Except ε β} {give : α → β} {as : List α} {bs : List β}
    (hstep : ∀ a ∈ as, ∀ b, step a = .ok b → b = give a) (h : as.mapM step = .ok bs) :
    bs = as.map give ∧ ∀ a ∈ as, step a = .ok (give a) := by
  induction as generalizing bs with
  | nil =>
    cases h
    simp
  | cons a as ih =>
    rw [List.mapM_cons] at h
    obtain ⟨b, hb, h⟩ := Record.SectionRecord.bind_eq_ok h
    obtain ⟨rest, hrest, h⟩ := Record.SectionRecord.bind_eq_ok h
    cases h
    obtain rfl := hstep a List.mem_cons_self b hb
    obtain ⟨rfl, hall⟩ := ih (fun a ha => hstep a (List.mem_cons_of_mem _ ha)) hrest
    exact ⟨rfl, List.forall_mem_cons.mpr ⟨hb, hall⟩⟩

theorem readFile_eq_ok {file? : Option File} (hsection : isSection folder s name = true)
    (h : readFile d folder name = .ok file?) :
    file? = (sectionFile? d folder s name).map (SectionFile.file folder) := by
  obtain ⟨⟨stem, hname, hstem⟩, -⟩ := isSection_iff.mp hsection
  have hsplit := splitName_eq_iff.mpr ⟨hname, hstem, dot_notMem_json⟩
  have hkey := FileName.stem_eq ⟨hname, hstem, dot_notMem_json⟩
  have hshown : SectionFile.name ⟨stem, []⟩ = name := by
    cases name
    exact congrArg FileName.mk hname.symm
  simp only [readFile, sectionFile?, hsection, if_true, hsplit] at h ⊢
  cases hentry : d.entry folder name with
  | file bytes =>
    simp only [hentry, Except.ok.injEq] at h
    rw [← h, hkey, ← hshown]
    rfl
  | closed why =>
    simp [hentry] at h
  | folder =>
    simp only [hentry, Except.ok.injEq] at h
    exact h.symm
  | nothing why =>
    simp only [hentry, Except.ok.injEq] at h
    exact h.symm

theorem sectionFiles_eq_ok {found : List File} (hnames : d.names folder = .ok names)
    (h : sectionFiles d folder s = .ok found) :
    found = ((sorted names).filterMap (sectionFile? d folder s)).map (SectionFile.file folder) := by
  simp only [sectionFiles, hnames] at h
  obtain ⟨read, hread, h⟩ := Record.SectionRecord.bind_eq_ok h
  cases h
  rw [← sorted] at hread
  obtain ⟨rfl, -⟩ := mapM_eq_ok (fun name hname _ => readFile_eq_ok (List.mem_filter.mp hname).2) hread
  rw [List.filterMap_map, List.filterMap_filter, List.map_filterMap]
  apply List.filterMap_congr
  intro name _
  cases hsection : isSection folder s name with
  | true => simp
  | false => simp [sectionFile?, hsection]

structure Read (d : Disk) (folder : String) (s : Settings) (files : List SectionFile) :
    Prop where
  ascending : files.Pairwise fun f g => f.name.bytes < g.name.bytes
  mem_iff : ∀ f, f ∈ files ↔ f.In d folder s

theorem exists_read {found : List File} (hdisk : ∀ names, d.names folder = .ok names →
      Disk.Listing names) (h : sectionFiles d folder s = .ok found) :
    ∃ files, Read d folder s files ∧ found = files.map (SectionFile.file folder) := by
  cases hnames : d.names folder with
  | error why => simp [sectionFiles, hnames] at h
  | ok names =>
    refine ⟨_, ⟨?_, ?_⟩, sectionFiles_eq_ok hnames h⟩
    · rw [List.pairwise_filterMap]
      refine (pairwise_sorted (hdisk names hnames).nodup).imp ?_
      intro a b hab f hf g hg
      rw [(sectionFile?_eq_some_iff.mp hf).1, (sectionFile?_eq_some_iff.mp hg).1]
      exact hab
    · intro f
      simp only [List.mem_filterMap, mem_sorted]
      exact sectionFile?_eq_some_iff_in hnames

/-! What is read from them. -/

theorem readSection_file (folder : String) (f : SectionFile) :
    readSection (f.file folder) = ⟨f.keyed?, match Json.read f.bytes with
      | .ok v => (Record.loadSection f.key v).findings
      | .error e => [.notJson .sectionRecord (f.path folder) e f.key]⟩ := by
  simp only [readSection, SectionFile.file, SectionFile.keyed?]
  cases Json.read f.bytes <;> rfl

theorem content_readSections (folder : String) (files : List SectionFile) :
    (readSections (files.map (SectionFile.file folder))).value =
      OrderedMap.ofList (files.filterMap SectionFile.keyed?) := by
  simp [readSections, List.filterMap_map, Function.comp_def, readSection_file]

theorem countP_readSection (folder path : String) (f : SectionFile) :
    (readSection (f.file folder)).findings.countP (Finding.tellsNotJson path) =
      if (f.path folder == path && !f.isJson) = true then 1 else 0 := by
  rw [readSection_file, SectionFile.isJson]
  cases hread : Json.read f.bytes with
  | error e => simp [Finding.tellsNotJson, Except.isOk, Except.toBool, List.countP_cons]
  | ok v =>
    simp only [Except.isOk, Except.toBool, Bool.not_true, Bool.and_false, Bool.false_eq_true, if_false]
    apply countP_eq_zero
    intro g hg
    have hplace := Record.place_of_mem_loadSection hg
    apply Finding.not_tellsNotJson
    have horigin := congrArg Prod.fst hplace
    rw [show g.origin = .sections from horigin]
    exact Finding.Origin.noConfusion

theorem countP_readSections (folder path : String) (files : List SectionFile) :
    (readSections (files.map (SectionFile.file folder))).findings.countP (Finding.tellsNotJson path) =
      files.countP fun f => f.path folder == path && !f.isJson := by
  have hfindings : ∀ files : List SectionFile,
      (readSections (files.map (SectionFile.file folder))).findings =
        files.flatMap fun f => (readSection (f.file folder)).findings := by
    intro files
    simp [readSections, List.flatMap_map]
  rw [hfindings]
  induction files with
  | nil => rfl
  | cons f files ih =>
    rw [List.flatMap_cons, List.countP_append, countP_readSection, ih, List.countP_cons, Nat.add_comm]

theorem fst_of_keyed? {e : String × List (Block String)} (h : f.keyed? = some e) :
    e.1 = f.key := by
  unfold SectionFile.keyed? at h
  split at h
  · cases h
    rfl
  · cases h

/-! Names that are texts. -/

theorem Read.eq_of_key (h : Read d folder s files)
    (htexts : ∀ f ∈ files, ∃ text, f.name = .ofText text) (hf : f ∈ files) (hg : g ∈ files)
    (hkey : f.key = g.key) : f = g := by
  obtain ⟨text, hftext⟩ := htexts f hf
  obtain ⟨text', hgtext⟩ := htexts g hg
  have hname : f.name = g.name := by
    rw [f.name_eq_of_text hftext, g.name_eq_of_text hgtext, hkey]
  have hentry := ((h.mem_iff f).mp hf).entry
  rw [hname, ((h.mem_iff g).mp hg).entry] at hentry
  cases f
  cases g
  cases SectionFile.name_inj.mp hname
  cases hentry
  rfl

theorem Read.nodup (h : Read d folder s files) : files.Nodup := by
  refine h.ascending.imp ?_
  rintro f g hlt rfl
  exact List.lt_irrefl _ hlt

theorem Read.nodup_keys (h : Read d folder s files)
    (htexts : ∀ f ∈ files, ∃ text, f.name = .ofText text) :
    ((files.filterMap SectionFile.keyed?).map Prod.fst).Nodup := by
  rw [List.nodup_iff_pairwise_ne, List.pairwise_map, List.pairwise_filterMap]
  refine h.nodup.imp_of_mem ?_
  intro f g hf hg hne e he e' he' heq
  rw [fst_of_keyed? he, fst_of_keyed? he'] at heq
  exact hne (h.eq_of_key htexts hf hg heq)

theorem Read.key_notMem (h : Read d folder s files)
    (htexts : ∀ f ∈ files, ∃ text, f.name = .ofText text) (hf : f ∈ files) {e : Json.SyntaxError}
    (he : Json.read f.bytes = .error e) :
    f.key ∉ (files.filterMap SectionFile.keyed?).map Prod.fst := by
  intro hmem
  obtain ⟨entry, hentry, hkey⟩ := List.mem_map.mp hmem
  obtain ⟨g, hg, hge⟩ := List.mem_filterMap.mp hentry
  have hfg : f = g := h.eq_of_key htexts hf hg (by rw [← hkey, fst_of_keyed? hge])
  subst hfg
  simp only [SectionFile.keyed?, he] at hge
  cases hge

theorem Read.countP_eq_one (h : Read d folder s files)
    (hdisk : ∀ names, d.names folder = .ok names → Disk.Listing names)
    (htexts : ∀ f ∈ files, ∃ text, f.name = .ofText text) (hf : f ∈ files)
    (hbroken : f.isJson = false) :
    files.countP (fun g => g.path folder == f.path folder && !g.isJson) = 1 := by
  have hslash : ∀ g ∈ files, '/' ∉ g.name.shown.toList := by
    intro g hg hmem
    obtain ⟨text, htext⟩ := htexts g hg
    obtain ⟨names, hnames, hname⟩ := ((h.mem_iff g).mp hg).listed
    rw [htext, FileName.shown_ofText] at hmem
    exact (hdisk names hnames).slash_notMem _ hname (htext ▸ FileName.slash_mem_of_text hmem)
  have hself : ∀ g ∈ files, (g.path folder == f.path folder && !g.isJson) = true ↔
      (g == f) = true := by
    intro g hg
    rw [Bool.and_eq_true, beq_iff_eq, beq_iff_eq]
    constructor
    · rintro ⟨hpath, -⟩
      -- a name without a slash is what its path has behind the folder
      have hshown := Path.eq_of_join_eq (hslash g hg) (hslash f hf) hpath
      rw [g.shown_name, f.shown_name, String.append_left_inj] at hshown
      exact h.eq_of_key htexts hg hf hshown
    · rintro rfl
      simp [hbroken]
  rw [List.countP_congr hself]
  exact List.count_eq_one_of_mem h.nodup hf

/-! Loaded papers. -/

/-- No file that cannot be read is passed over. -/
theorem not_closed_of_load {l : Loaded Paper} (h : load d folder s = .ok l) (why : Fault) :
    d.look (contentsPath folder s) ≠ .closed why ∧ d.look (bibliographyPath folder s) ≠ .closed why ∧
      ∀ names, d.names folder = .ok names → ∀ name ∈ names, isSection folder s name = true →
        d.entry folder name ≠ .closed why := by
  obtain ⟨found, contents, sources, hfound, hcontents, hsources, -⟩ := parts_of_load h
  refine ⟨?_, ?_, ?_⟩
  · intro hclosed
    simp [readContents, readRecord, hclosed, bind, Except.bind] at hcontents
  · intro hclosed
    simp [readSources, readRecord, hclosed, bind, Except.bind] at hsources
  · intro names hnames name hname hsection hclosed
    simp only [sectionFiles, hnames] at hfound
    obtain ⟨read, hread, -⟩ := Record.SectionRecord.bind_eq_ok hfound
    obtain ⟨-, hall⟩ := mapM_eq_ok
      (fun name hname _ => readFile_eq_ok (List.mem_filter.mp hname).2) hread
    have hok := hall name (List.mem_filter.mpr ⟨List.mem_mergeSort.mpr hname, hsection⟩)
    simp [readFile, hclosed] at hok

theorem exists_read_of_load {l : Loaded Paper}
    (hdisk : ∀ names, d.names folder = .ok names → Disk.Listing names)
    (h : load d folder s = .ok l) :
    ∃ files, Read d folder s files ∧
      l.value.content = OrderedMap.ofList (files.filterMap SectionFile.keyed?) ∧
      ∀ path, l.findings.countP (Finding.tellsNotJson path) =
        files.countP fun f => f.path folder == path && !f.isJson := by
  obtain ⟨found, contents, sources, hfound, hcontents, hsources, rfl⟩ := parts_of_load h
  obtain ⟨files, hread, rfl⟩ := exists_read hdisk hfound
  refine ⟨files, hread, content_readSections folder files, ?_⟩
  intro path
  have hother {places : List (Finding.Origin × String)} {findings : List Finding}
      (hplaces : ∀ p ∈ places, p.1 ≠ .bytes .sectionRecord) (hin : ∀ g ∈ findings, g.place ∈ places) :
      findings.countP (Finding.tellsNotJson path) = 0 :=
    countP_eq_zero fun g hg => Finding.not_tellsNotJson (hplaces _ (hin g hg))
  simp only [List.countP_append]
  rw [countP_readSections,
    hother (by simp [contentsPlaces]) fun g hg => (readsContents hcontents).place_mem hg,
    hother (by simp) fun g hg => List.mem_singleton.mpr (place_of_mem_orDerived hg),
    hother (by simp [sourcesPlaces]) fun g hg => (readsSources hsources).place_mem hg]
  rfl

/-- The section files of a folder, in the byte order of their names, are what the content of a loaded paper is
made of: the blocks of each that is JSON are under its stem as it is shown, where the last file of that stem
counts, and is what the place of the entry goes by. Each of the others is reported once under its path as it is
shown. If the names are texts, every file that is JSON has an entry of its own, and every other one has none and
is the only one reported under its path. -/
theorem section_files_of_load {l : Loaded Paper}
    (hdisk : ∀ names, d.names folder = .ok names → Disk.Listing names)
    (h : load d folder s = .ok l) :
    let reported (path : String) := l.diagnostics.countP fun g => g.code = some "P-2-2" ∧
      g.problem = some (.markdown ("`" ++ path ++ "` is not valid JSON"))
    ∃ files : List SectionFile,
      files.Pairwise (fun f g => f.name.bytes < g.name.bytes) ∧
        (∀ f, f ∈ files ↔ f.In d folder s) ∧
        l.value.content.keys = ((files.filterMap SectionFile.keyed?).map Prod.fst).dedup ∧
        (∀ key, l.value.content.get? key =
          (files.filterMap SectionFile.keyed?).reverse.lookup key) ∧
        (∀ path, reported path = files.countP fun f => f.path folder == path && !f.isJson) ∧
        ((∀ f ∈ files, ∃ text, f.name = .ofText text) →
          l.value.content.entries = files.filterMap SectionFile.keyed? ∧
            ∀ f ∈ files, f.name = .ofText (f.key ++ ".json") ∧
              ∀ e, Json.read f.bytes = .error e →
                f.key ∉ l.value.content.keys ∧ reported (f.path folder) = 1) := by
  intro reported
  obtain ⟨files, hread, hcontent, hcount⟩ := exists_read_of_load hdisk h
  have hkeys : l.value.content.keys = ((files.filterMap SectionFile.keyed?).map Prod.fst).dedup := by
    rw [hcontent, OrderedMap.keys_ofList]
  have hreported : ∀ path, reported path =
      files.countP fun f => f.path folder == path && !f.isJson := fun path =>
    (countP_diagnostics l (Finding.tellsNotJson_iff path)).trans (hcount path)
  refine ⟨files, hread.ascending, hread.mem_iff, hkeys, ?_, hreported, ?_⟩
  · intro key
    rw [← OrderedMap.get?_ofList, ← hcontent]
  · intro htexts
    refine ⟨?_, ?_⟩
    · rw [← OrderedMap.entries_ofList (hread.nodup_keys htexts), ← hcontent]
    · intro f hf
      obtain ⟨text, htext⟩ := htexts f hf
      refine ⟨f.name_eq_of_text htext, ?_⟩
      intro e he
      have hbroken : f.isJson = false := by rw [SectionFile.isJson, he]; rfl
      refine ⟨?_, ?_⟩
      · rw [hkeys, List.mem_dedup]
        exact hread.key_notMem htexts hf he
      · rw [hreported]
        exact hread.countP_eq_one hdisk htexts hf hbroken

def shelf : Disk where
  look path :=
    if path = "p/a.json" then .file [123, 125]
    else if path = "p/broken.json" then .file [123]
    else .nothing .missing
  names path := if path = "p" then .ok ["a.json", "broken.json"] else .error .missing

theorem section_files_of_load_broken_file : ∃ l, load shelf "p" {} = .ok l ∧
    "broken" ∉ l.value.content.keys ∧
      l.diagnostics.countP (fun g => g.code = some "P-2-2" ∧
        g.problem = some (.markdown "`p/broken.json` is not valid JSON")) = 1 := by
  obtain ⟨l, hl⟩ := exists_of_isOk (r := load shelf "p" {}) <| by
    rw [load, sectionFiles_of_sorted rfl (by decide)]
    decide +kernel
  have hdisk : ∀ names, shelf.names "p" = .ok names → Disk.Listing names := by
    intro names hnames
    cases hnames
    exact ⟨by decide, by decide⟩
  obtain ⟨files, -, hmem, -, -, -, htexts⟩ := section_files_of_load hdisk hl
  have hfiles : ∀ f ∈ files, ∃ text, f.name = .ofText text := by
    intro f hf
    obtain ⟨names, hnames, hname⟩ := ((hmem f).mp hf).listed
    cases hnames
    obtain hname | hname := List.mem_pair.mp hname
    · exact ⟨_, hname⟩
    · exact ⟨_, hname⟩
  have htext : ∀ text, SectionFile.name ⟨Text.toUtf8 "broken", [123]⟩ = .ofText text →
      text = "broken.json" := by
    intro text htext
    rw [← FileName.shown_ofText text, ← htext]
    decide +kernel
  have hin : SectionFile.In shelf "p" {} ⟨Text.toUtf8 "broken", [123]⟩ := by
    refine ⟨⟨_, rfl, by decide⟩, by decide, by decide +kernel, ?_, ?_, ?_⟩ <;>
    · intro text hname
      rw [htext text hname]
      decide +kernel
  have hcut : (Json.read [123]).isOk = false := by decide +kernel
  cases he : Json.read [123] with
  | ok v =>
    rw [he] at hcut
    cases hcut
  | error e =>
    obtain ⟨-, hbroken⟩ := (htexts hfiles).2 _ ((hmem _).mpr hin)
    exact ⟨l, hl, hbroken e he⟩

/-- The name `a` with a byte behind it that belongs to no character. -/
def oddFile (b : UInt8) (text : String) : SectionFile :=
  ⟨[97, b], Text.bytes ("\x7b\"id\": \"s\", \"content\": \"" ++ text ++ "\"\x7d").toList⟩

def clash : Disk where
  look _ := .nothing .missing
  names path := if path = "content" then
      .ok [(oddFile 0xFE "A").name, (oddFile 0xFF "B").name] else .error .missing
  hidden folder name :=
    if folder = "content" ∧ name = (oddFile 0xFE "A").name then .file (oddFile 0xFE "A").bytes
    else if folder = "content" ∧ name = (oddFile 0xFF "B").name then .file (oddFile 0xFF "B").bytes
    else .nothing .missing

theorem in_clash {f : SectionFile} (hlisted : f = oddFile 0xFE "A" ∨ f = oddFile 0xFF "B") :
    f.In clash "content" {} := by
  have hno : ∀ text, f.name ≠ .ofText text := by
    intro text h
    rw [← FileName.text?_eq_some_iff] at h
    have hnone : f.name.text?.isNone = true := by
      obtain rfl | rfl := hlisted <;> decide +kernel
    rw [h] at hnone
    cases hnone
  refine ⟨⟨_, rfl, ?_⟩, ?_, ?_, fun text h => absurd h (hno text), fun text h => absurd h (hno text),
    fun text h => absurd h (hno text)⟩
  · obtain rfl | rfl := hlisted <;> simp
  · obtain rfl | rfl := hlisted <;> decide
  · obtain rfl | rfl := hlisted <;> decide +kernel

/-- Of two section files that are JSON only the second is in the content, and no diagnostic speaks of the
first. -/
theorem exists_section_overwritten :
    let f := oddFile 0xFE "A"
    let g := oddFile 0xFF "B"
    f.In clash "content" {} ∧ g.In clash "content" {} ∧ f.isJson = true ∧ g.isJson = true ∧
      f.key = "a\uFFFD" ∧ g.key = "a\uFFFD" ∧ ∃ l, load clash "content" {} = .ok l ∧
        l.value.content.entries.map (fun e => (e.1, e.2.map Block.body)) = [("a\uFFFD", ["B"])] ∧
        l.value.content.entries ≠ [f, g].filterMap SectionFile.keyed? ∧
        ∀ d ∈ l.diagnostics, d.code = some "P-1-4" := by
  intro f g
  have hload : (load clash "content" {}).toOption.map (fun l =>
      (l.value.content.entries.map fun e => (e.1, e.2.map Block.body),
        l.diagnostics.map Diagnostic.code)) =
      some ([("a\uFFFD", ["B"])], [some "P-1-4"]) := by
    rw [load, sectionFiles_of_sorted rfl (by decide)]
    decide +kernel
  obtain ⟨l, hl, hload⟩ := exists_of_toOption_map hload
  obtain ⟨hentries, hcodes⟩ := Prod.mk.inj hload
  have hboth : ([f, g].filterMap SectionFile.keyed?).length = 2 := by decide +kernel
  refine ⟨in_clash (.inl rfl), in_clash (.inr rfl), by decide +kernel, by decide +kernel,
    by decide +kernel, by decide +kernel, l, hl, hentries, ?_, ?_⟩
  · intro hall
    have hone := congrArg List.length hentries
    rw [List.length_map, hall, hboth] at hone
    cases hone
  · intro d hd
    have hcode : d.code ∈ l.diagnostics.map Diagnostic.code := List.mem_map_of_mem hd
    rw [hcodes] at hcode
    exact List.mem_singleton.mp hcode

end Manuscript.Paper
