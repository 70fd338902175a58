import Vaiexia.Backend.ListParse

/-!
# Listing installed packages only

`installed_only` is a filter in `list` of `MockBackend`
(`crates/vaiexia-server/src/backend/mock.rs`), whose pages have installed packages only
(`mockList_installed`).  `RealPackageManager::list` has no filter: it leaves the choice to the
command, and what is listed is installed as far as every line that the command prints shows it to be
(`listPackages_installed_iff`).  `dpkg-query -W` prints every package that it knows, also a removed
one whose configuration remains.
-/

namespace Vaiexia.Backend

open Vaiexia.Lib Text

/-! ## The mock -/

/-- `list` of `MockBackend`, where `failNext` is the failure that was set.  `usize` wraps. -/
def mockList (encode : Bytes → String) (decode : String → Option Bytes)
    (failNext : Option BackendError) (packages : List PackageInfo) (query : Option String)
    (installedOnly : Bool) (page : Option String) : Except BackendError (Page PackageInfo) :=
  match failNext with
  | some err => .error err
  | none =>
      let pkgs := (packages.filter fun p ↦ !installedOnly || p.installed).filter fun p ↦
        (query.map fun q ↦ contains p.name q).getD true
      let start := (page.map fun cursor ↦ (cursorToIdx decode cursor).getD 0).getD 0
      let items := (pkgs.drop start).take pageSize
      let nextStart := (start + pageSize) % 2 ^ 64
      .ok ⟨items, if nextStart < pkgs.length then some (cursorFor encode nextStart) else none⟩

/-- **The mock's pages** have installed packages only when only such are asked for. -/
theorem mockList_installed {encode : Bytes → String} {decode : String → Option Bytes}
    {failNext : Option BackendError} {packages : List PackageInfo} {query page : Option String}
    {result : Page PackageInfo}
    (h : mockList encode decode failNext packages query true page = .ok result) :
    ∀ p ∈ result.items, p.installed = true := by
  cases failNext with
  | some err => cases h
  | none =>
      cases h
      intro p hp
      have hfiltered := List.mem_of_mem_drop (List.mem_of_mem_take hp)
      have hmem := List.mem_filter.mp (List.mem_of_mem_filter hfiltered)
      exact hmem.2

/-! ## One line -/

/-- The parser of a line. -/
def parseLine : PackageKind → List Char → Option PackageInfo
  | .apt => parseDpkgLine
  | .dnf => parseDnfLine
  | .pacman => parsePacmanLine
  | .apk => parseApkLine

theorem parseList_eq (kind : PackageKind) (stdout : List Char) :
    parseList kind stdout = (lines stdout).filterMap (parseLine kind) := by
  cases kind <;> rfl

/-- A line, if it is about a package at all, shows it to be installed: with dpkg's status, a
repository marked as the system's, or a mark.  `pacman -Q` needs none. -/
def ShowsInstalled : PackageKind → List Char → Prop
  | .apt, line =>
      ∀ name version more, splitn 4 '\t' line = name :: version :: more → trim name ≠ [] →
        ∃ status, more.head? = some status ∧ "install ok installed".toList <:+: trim status
  | .dnf, line =>
      ∀ nameArch version more, splitWhitespace (trim line) = nameArch :: version :: more →
        ¬ LooksLikeHeader (trim line) → ∃ repo, more.head? = some repo ∧ "@".toList <+: repo
  | .pacman, _ => True
  | .apk, line =>
      ∀ first more, splitWhitespace (trim line) = first :: more →
        (splitApkNameVersion first).1 ≠ [] → "[installed]".toList <:+: trim line

theorem contains_ofList {cs : List Char} {part : String} :
    contains (String.ofList cs) part = true ↔ part.toList <:+: cs := by
  rw [contains, decide_eq_true_iff, @String.toList_ofList cs]

theorem forall_mem_none : ∀ p ∈ (none : Option PackageInfo), p.installed = true := by
  rintro p ⟨⟩

theorem forall_mem_some {p : PackageInfo} :
    (∀ p' ∈ some p, p'.installed = true) ↔ p.installed = true := by
  simp only [Option.mem_some, forall_eq']

theorem parseDpkgLine_installed_iff (line : List Char) :
    (∀ p ∈ parseDpkgLine line, p.installed = true) ↔ ShowsInstalled .apt line := by
  rw [parseDpkgLine, ShowsInstalled]
  rcases splitn 4 '\t' line with _ | ⟨name, _ | ⟨version, more⟩⟩
  · exact iff_of_true forall_mem_none (by rintro _ _ _ ⟨⟩)
  · exact iff_of_true forall_mem_none (by rintro _ _ _ ⟨⟩)
  · dsimp only
    by_cases hname : trim name = []
    · rw [if_pos (List.isEmpty_iff.mpr hname)]
      refine iff_of_true forall_mem_none ?_
      rintro _ _ _ ⟨⟩ hne
      exact absurd hname hne
    · rw [if_neg (mt List.isEmpty_iff.mp hname), forall_mem_some, contains_ofList]
      cases more with
      | nil =>
          refine iff_of_false (by decide) fun h ↦ ?_
          obtain ⟨status, hstatus, -⟩ := h _ _ _ rfl hname
          cases hstatus
      | cons status more =>
          constructor
          · rintro h _ _ _ ⟨⟩ -
            exact ⟨status, rfl, h⟩
          · intro h
            obtain ⟨_, ⟨⟩, hstatus⟩ := h _ _ _ rfl hname
            exact hstatus

/-- The lines that the parser of `dnf list` skips. -/
theorem dnfSkips_iff {l : List Char} :
    ("Installed".toList.isPrefixOf l || "Available".toList.isPrefixOf l || l.isEmpty) = true ↔
      LooksLikeHeader l ∨ l = [] := by
  rw [Bool.or_eq_true, Bool.or_eq_true, List.isPrefixOf_iff_prefix, List.isPrefixOf_iff_prefix,
    List.isEmpty_iff, LooksLikeHeader]

theorem parseDnfLine_installed_iff (line : List Char) :
    (∀ p ∈ parseDnfLine line, p.installed = true) ↔ ShowsInstalled .dnf line := by
  rw [parseDnfLine, ShowsInstalled]
  dsimp only
  generalize trim line = line
  by_cases hskip : LooksLikeHeader line ∨ line = []
  · rw [if_pos (dnfSkips_iff.mpr hskip)]
    refine iff_of_true forall_mem_none fun _ _ _ hsplit hno ↦ ?_
    rcases hskip with hheader | rfl
    · exact absurd hheader hno
    · cases hsplit
  · rw [if_neg (mt dnfSkips_iff.mp hskip)]
    have hno := (not_or.mp hskip).1
    rcases splitWhitespace line with _ | ⟨nameArch, _ | ⟨version, more⟩⟩
    · exact iff_of_true forall_mem_none (by rintro _ _ _ ⟨⟩)
    · exact iff_of_true forall_mem_none (by rintro _ _ _ ⟨⟩)
    · dsimp only
      rw [forall_mem_some]
      cases more with
      | nil =>
          refine iff_of_false Bool.false_ne_true fun h ↦ ?_
          obtain ⟨repo, hrepo, -⟩ := h _ _ _ rfl hno
          cases hrepo
      | cons repo more =>
          constructor
          · rintro h _ _ _ ⟨⟩ -
            exact ⟨repo, rfl, List.isPrefixOf_iff_prefix.mp h⟩
          · intro h
            obtain ⟨_, ⟨⟩, hmark⟩ := h _ _ _ rfl hno
            exact List.isPrefixOf_iff_prefix.mpr hmark

theorem parsePacmanLine_installed (line : List Char) :
    ∀ p ∈ parsePacmanLine line, p.installed = true := by
  intro p hp
  unfold parsePacmanLine at hp
  dsimp only at hp
  split at hp
  · cases hp
  · split at hp
    · cases hp
      rfl
    · cases hp

theorem parseApkLine_installed_iff (line : List Char) :
    (∀ p ∈ parseApkLine line, p.installed = true) ↔ ShowsInstalled .apk line := by
  rw [parseApkLine, ShowsInstalled]
  dsimp only
  generalize trim line = line
  by_cases hempty : line = []
  · rw [hempty]
    exact iff_of_true forall_mem_none (by rintro _ _ ⟨⟩)
  · rw [if_neg (mt List.isEmpty_iff.mp hempty)]
    cases splitWhitespace line with
    | nil => exact iff_of_true forall_mem_none (by rintro _ _ ⟨⟩)
    | cons first more =>
        rw [List.head?_cons, Option.getD_some]
        by_cases hname : (splitApkNameVersion first).1 = []
        · rw [if_pos (List.isEmpty_iff.mpr hname)]
          refine iff_of_true forall_mem_none ?_
          rintro _ _ ⟨⟩ hne
          exact absurd hname hne
        · rw [if_neg (mt List.isEmpty_iff.mp hname), forall_mem_some, contains_ofList]
          constructor
          · rintro h _ _ ⟨⟩ -
            exact h
          · exact fun h ↦ h _ _ rfl hname

/-- What is parsed of a line is installed if the line shows it. -/
theorem parseLine_installed_iff (kind : PackageKind) (line : List Char) :
    (∀ p ∈ parseLine kind line, p.installed = true) ↔ ShowsInstalled kind line := by
  cases kind with
  | apt => exact parseDpkgLine_installed_iff line
  | dnf => exact parseDnfLine_installed_iff line
  | pacman => exact iff_of_true (parsePacmanLine_installed line) trivial
  | apk => exact parseApkLine_installed_iff line

theorem parseList_installed_iff (kind : PackageKind) (stdout : List Char) :
    (∀ p ∈ parseList kind stdout, p.installed = true) ↔
      ∀ line ∈ lines stdout, ShowsInstalled kind line := by
  rw [parseList_eq, List.forall_mem_filterMap]
  exact forall₂_congr fun line _ ↦ parseLine_installed_iff kind line

/-! ## In the formats of the commands -/

/-- **What dpkg knows**: the packages that are found are installed when every status looks so, and
nothing in the arguments asks for that. -/
theorem dpkg_installed_iff (rs : List DpkgRecord) :
    (∀ p ∈ parseList .apt (dpkgOutput dpkgFormat rs), p.installed = true) ↔
      ∀ r ∈ rs, r.LooksInstalled := by
  rw [parseList_dpkg, List.forall_mem_map]
  exact forall₂_congr fun r _ ↦ decide_eq_true_iff

theorem forall_installed_iff_key (items : List PackageInfo) :
    (∀ p ∈ items, p.installed = true) ↔ ∀ x ∈ items.map PackageInfo.key, x.2 = true := by
  rw [List.forall_mem_map]
  exact Iff.rfl

/-- The packages of `dnf list` are installed when it shows no available ones, as `--installed`
asks. -/
theorem dnf_installed_iff (l : DnfListing) :
    (∀ p ∈ parseList .dnf (unlines l.lines), p.installed = true) ↔
      ∀ r ∈ l.available, LooksLikeHeader r.name := by
  rw [forall_installed_iff_key, parseList_dnf, List.forall_mem_filterMap, DnfListing.shown,
    List.forall_mem_append, List.forall_mem_map, List.forall_mem_map]
  constructor
  · rintro ⟨-, h⟩ r hr
    by_contra hno
    exact absurd (h r hr _ (if_neg hno)) Bool.false_ne_true
  · intro h
    refine ⟨fun r _ x hx ↦ ?_, fun r hr x hx ↦ ?_⟩
    · split at hx
      · cases hx
      · cases hx
        rfl
    · rw [if_pos (h r hr)] at hx
      cases hx

/-- The packages of `apk list` are installed when it shows only such, as `--installed` asks, or the
others look marked. -/
theorem apk_installed_iff (rs : List ApkRecord) :
    (∀ p ∈ parseList .apk (unlines (rs.map ApkRecord.line)), p.installed = true) ↔
      ∀ r ∈ rs, r.installed = true ∨ "[installed]".toList <:+: r.text := by
  rw [forall_installed_iff_key, parseList_apk, List.forall_mem_map]
  refine forall₂_congr fun r _ ↦ ?_
  rw [Bool.or_eq_true, decide_eq_true_iff]

/-! ## A listing -/

/-- A listing is what is parsed of the output of a command that ends in time. -/
theorem listPackages_eq_ok_iff {cap : Nat} {kind : PackageKind}
    {spawn : String → List String → Option ChildReads} {query : Option String}
    {installedOnly : Bool} {page : Page PackageInfo} :
    listPackages cap kind spawn query installedOnly = some (.ok page) ↔
      ∃ program args child, buildListArgv kind query installedOnly = program :: args ∧
        spawn program args = some child ∧ child.inTime = true ∧ page =
          ⟨parseList kind (Utf8.decodeLossy (keptOutput cap (stream child.reads))), none⟩ := by
  obtain ⟨program, args, hargv⟩ := exists_buildListArgv kind query installedOnly
  have hnone (hspawn : spawn program args = none) :
      listPackages cap kind spawn query installedOnly = some (.error .unavailable) := by
    simp [listPackages, hargv, hspawn]
  have hsome {child : ChildReads} (hspawn : spawn program args = some child) :
      listPackages cap kind spawn query installedOnly =
        listPackages cap kind (fun _ _ ↦ some child) query installedOnly := by
    simp [listPackages, hargv, hspawn]
  rw [hargv]
  constructor
  · intro h
    cases hspawn : spawn program args with
    | none =>
        rw [hnone hspawn] at h
        cases h
    | some child =>
        obtain ⟨reads, inTime, success⟩ := child
        rw [hsome hspawn] at h
        cases inTime with
        | false => simp [listPackages, hargv, runCappedReads] at h
        | true =>
            rw [listPackages_eq] at h
            exact ⟨program, args, _, rfl, hspawn, rfl, (Except.ok.inj (Option.some.inj h)).symm⟩
  · rintro ⟨_, _, ⟨reads, _, success⟩, ⟨⟩, hspawn, rfl, rfl⟩
    rw [hsome hspawn]
    exact listPackages_eq cap kind reads success query installedOnly

/-- **When a listing of installed packages has no other ones.**  Whatever the package manager, the
query and the cap, and whatever the commands print: the items of the page are all installed exactly
when each line that is kept of the output of the listing's command shows this in the parser's sense.
The pages of the mock have installed packages only. -/
theorem listPackages_installed_iff (cap : Nat) (kind : PackageKind)
    (spawn : String → List String → Option ChildReads) (query : Option String) :
    ((∀ page, listPackages cap kind spawn query true = some (.ok page) →
        ∀ p ∈ page.items, p.installed = true) ↔
      ∀ program args child, buildListArgv kind query true = program :: args →
        spawn program args = some child → child.inTime = true →
          ∀ line ∈ lines (Utf8.decodeLossy (keptOutput cap (stream child.reads))),
            ShowsInstalled kind line) ∧
      ∀ encode decode failNext packages page result,
        mockList encode decode failNext packages query true page = .ok result →
          ∀ p ∈ result.items, p.installed = true := by
  refine ⟨?_, fun _ _ _ _ _ _ h ↦ mockList_installed h⟩
  constructor
  · intro h program args child hargv hspawn hinTime
    rw [← parseList_installed_iff]
    exact h _ (listPackages_eq_ok_iff.mpr ⟨program, args, child, hargv, hspawn, hinTime, rfl⟩)
  · intro h page hpage
    obtain ⟨program, args, child, hargv, hspawn, hinTime, rfl⟩ := listPackages_eq_ok_iff.mp hpage
    exact (parseList_installed_iff kind _).mpr (h program args child hargv hspawn hinTime)

/-- A package that was removed and whose configuration remains. -/
def removedVim : DpkgRecord where
  name := "vim".toList
  version := "9.0".toList
  want := "deinstall".toList
  flag := "ok".toList
  state := "config-files".toList
  summary := "Text editor".toList
  name_isWord := by decide
  version_isWord := by decide
  want_isWord := by decide
  flag_isWord := heldKernel.flag_isWord
  state_isWord := by decide
  tab_notMem := by decide
  newline_notMem := by decide

/-- The output of `dpkg-query` about it. -/
def removedVimOutput : Chunk where
  bytes := Utf8.encode (dpkgOutput dpkgFormat [removedVim])
  ne_nil := by decide +kernel

/-- It is listed among the installed packages. -/
theorem not_forall_listPackages_installed :
    ¬ ∀ (kind : PackageKind) (spawn : String → List String → Option ChildReads)
      (query : Option String) (page : Page PackageInfo),
      listPackages maxListBytes kind spawn query true = some (.ok page) →
        ∀ p ∈ page.items, p.installed = true := by
  intro h
  have hpage := h .apt (fun _ _ ↦ some ⟨[removedVimOutput], true, true⟩) none _
    (listPackages_eq maxListBytes .apt [removedVimOutput] true none true)
  revert hpage
  decide +kernel

end Vaiexia.Backend
