import Vaiexia.Backend.ListFormats

/-!
# What the listing parsers find

Each format of the listing commands against the parser that reads it.  `dpkg_readBack_iff` and
`apk_nameVersion_iff` say when records of dpkg and names of apk are read back as they are, and
`parseList_faithful_iff` when a command's listing is, for every command that can be selected.
-/

namespace Vaiexia.Backend

open Vaiexia.Lib Text

/-! ## Words in lines -/

theorem notMem_of_isWord {w : List Char} {c : Char} (hw : IsWord w) (hc : isWhitespace c = true) :
    c ∉ w := by
  intro h
  rw [hw.solid c h] at hc
  cases hc

/-- What ends in a word is not trimmed at its end. -/
theorem trimEnd_append_word {w : List Char} (hw : IsWord w) (a : List Char) :
    trimEnd (a ++ w) = a ++ w := by
  refine trimEnd_eq_self fun c hc ↦ hw.solid c ?_
  rw [List.getLast?_append_of_ne_nil _ hw.ne_nil] at hc
  exact List.mem_of_mem_getLast? hc

/-- What begins and ends with a word is not trimmed. -/
theorem trim_between_words {v w : List Char} (hv : IsWord v) (hw : IsWord w) (a : List Char) :
    trim (v ++ (a ++ w)) = v ++ (a ++ w) := by
  rw [trim_append hv, trimEnd_append_word hw]

/-- The other formats' lines are parsed without regard to how they end. -/
theorem parseDnfLine_stripCr (l : List Char) : parseDnfLine (stripCr l) = parseDnfLine l := by
  simp only [parseDnfLine, trim_stripCr]

theorem parsePacmanLine_stripCr (l : List Char) :
    parsePacmanLine (stripCr l) = parsePacmanLine l := by
  simp only [parsePacmanLine, trim_stripCr]

theorem parseApkLine_stripCr (l : List Char) : parseApkLine (stripCr l) = parseApkLine l := by
  simp only [parseApkLine, trim_stripCr]

/-- Parsing line by line what was written line by line. -/
theorem filterMap_lines_unlines {parse : List Char → Option PackageInfo}
    (hparse : ∀ l, parse (stripCr l) = parse l) {ls : List (List Char)} (h : ∀ l ∈ ls, '\n' ∉ l) :
    (lines (unlines ls)).filterMap parse = ls.filterMap parse := by
  rw [lines_unlines_map h, List.filterMap_map]
  exact congrArg (ls.filterMap ·) (funext hparse)

/-- Records with a line each, of which every one is parsed to a package. -/
theorem filterMap_lines_records {ρ : Type} {parse : List Char → Option PackageInfo}
    {line : ρ → List Char} {shown : ρ → PackageInfo} (hnewline : ∀ r, '\n' ∉ line r)
    (hparse : ∀ r, parse (stripCr (line r)) = some (shown r)) (rs : List ρ) :
    (lines (unlines (rs.map line))).filterMap parse = rs.map shown := by
  rw [lines_unlines_map (List.forall_mem_map.mpr fun r _ ↦ hnewline r), List.map_map,
    List.filterMap_map, ← List.filterMap_eq_map]
  exact List.filterMap_congr fun r _ ↦ hparse r

/-! ## dpkg-query -/

namespace DpkgRecord

variable (r : DpkgRecord)

theorem trim_status : trim r.status = r.status := by
  have hshape : r.status = r.want ++ ((' ' :: (r.flag ++ [' '])) ++ r.state) := by simp [status]
  rw [hshape, trim_between_words r.want_isWord r.state_isWord]

theorem tab_notMem_status : '\t' ∉ r.status := by
  have hws : isWhitespace '\t' = true := by decide
  have hwant := notMem_of_isWord r.want_isWord hws
  have hflag := notMem_of_isWord r.flag_isWord hws
  have hstate := notMem_of_isWord r.state_isWord hws
  simp [status, hwant, hflag, hstate]

theorem contains_status :
    contains (String.ofList r.status) "install ok installed" = decide r.LooksInstalled := by
  have hws : isWhitespace ' ' = true := by decide
  have htext : "install ok installed".toList =
      "install".toList ++ ' ' :: ("ok".toList ++ ' ' :: "installed".toList) := by decide
  rw [contains, @String.toList_ofList r.status, htext, status]
  refine decide_eq_decide.mpr ((infix_three_iff (by decide) (by decide) (by decide)
    (notMem_of_isWord r.want_isWord hws) (notMem_of_isWord r.flag_isWord hws)
    (notMem_of_isWord r.state_isWord hws)).trans ?_)
  rw [LooksInstalled, eq_comm (a := r.flag)]

/-- The pieces of a line. -/
theorem splitn_line : splitn 4 '\t' (stripCr r.line) =
    [r.name, r.version, r.status, stripCr r.summary] := by
  have hws : isWhitespace '\t' = true := by decide
  have hcr : ('\t' : Char) ≠ '\r' := by decide
  rw [line, stripCr_append hcr, stripCr_append hcr, stripCr_append hcr,
    splitn_append 2 _ (notMem_of_isWord r.name_isWord hws),
    splitn_append 1 _ (notMem_of_isWord r.version_isWord hws),
    splitn_append 0 _ r.tab_notMem_status]
  rfl

theorem parseDpkgLine_line :
    parseDpkgLine (stripCr r.line) = some { r.info with installed := decide r.LooksInstalled } := by
  have hname : r.name.isEmpty = false := List.isEmpty_eq_false_iff.mpr r.name_isWord.ne_nil
  simp only [parseDpkgLine, splitn_line, hname, r.trim_status, contains_status, info,
    trim_word r.name_isWord, trim_word r.version_isWord, summaryOf, trim_stripCr]
  rfl

theorem newline_notMem_line : '\n' ∉ r.line := by
  have hws : isWhitespace '\n' = true := by decide
  have hname := notMem_of_isWord r.name_isWord hws
  have hversion := notMem_of_isWord r.version_isWord hws
  have hwant := notMem_of_isWord r.want_isWord hws
  have hflag := notMem_of_isWord r.flag_isWord hws
  have hstate := notMem_of_isWord r.state_isWord hws
  simp [line, status, hname, hversion, hwant, hflag, hstate, r.newline_notMem]

end DpkgRecord

/-- **What a listing by `dpkg-query` is parsed to.** -/
theorem parseList_dpkg (rs : List DpkgRecord) :
    parseList .apt (dpkgOutput dpkgFormat rs) =
      rs.map fun r ↦ { r.info with installed := decide r.LooksInstalled } := by
  rw [dpkgOutput_dpkgFormat, parseList, parseDpkgQuery]
  exact filterMap_lines_records DpkgRecord.newline_notMem_line DpkgRecord.parseDpkgLine_line rs

/-- **Reading back a listing of dpkg.**  The command without a search among all packages prints
records in the format that its arguments have, and the parser gives back exactly these records, with
`installed` where the state says so, exactly when each state is `installed` if and only if the want
word ends in `install`, the flag is `ok`, and the state begins with `installed`. -/
theorem dpkg_readBack_iff (query : Option String) (rs : List DpkgRecord) :
    (∃ format, formatOf (buildListArgv .apt query true) = some (.dpkgQuery format) ∧
      formatOf (buildListArgv .apt none false) = some (.dpkgQuery format) ∧
      parseList .apt (dpkgOutput format rs) = rs.map DpkgRecord.info) ↔
      ∀ r ∈ rs, r.state = "installed".toList ↔ r.LooksInstalled := by
  have hinfo : parseList .apt (dpkgOutput dpkgFormat rs) = rs.map DpkgRecord.info ↔
      ∀ r ∈ rs, r.state = "installed".toList ↔ r.LooksInstalled := by
    rw [parseList_dpkg, List.map_eq_map_iff]
    refine forall₂_congr fun r _ ↦ ?_
    simp only [DpkgRecord.info, PackageInfo.mk.injEq, true_and, and_true, decide_eq_decide]
    exact iff_comm
  rw [← hinfo]
  constructor
  · rintro ⟨format, hformat, -, hparse⟩
    obtain rfl : dpkgFormat = format := by
      rw [formatOf_buildListArgv] at hformat
      exact Format.dpkgQuery.inj (Option.some.inj hformat)
    exact hparse
  · exact fun h ↦ ⟨dpkgFormat, formatOf_buildListArgv .apt query true,
      formatOf_buildListArgv .apt none false, h⟩

/-- An installed package that is held back. -/
def heldKernel : DpkgRecord where
  name := "linux-image-amd64".toList
  version := "6.1.76-1".toList
  want := "hold".toList
  flag := "ok".toList
  state := "installed".toList
  summary := "Linux for 64-bit PCs".toList
  name_isWord := by decide
  version_isWord := by decide
  want_isWord := by decide
  flag_isWord := by decide
  state_isWord := by decide
  tab_notMem := by decide
  newline_notMem := by decide

theorem dpkg_heldKernel_not_readBack :
    ¬ ∀ rs : List DpkgRecord,
      parseList .apt (dpkgOutput dpkgFormat rs) = rs.map DpkgRecord.info := by
  intro h
  have hheld := h [heldKernel]
  rw [parseList_dpkg] at hheld
  have hinstalled := congrArg PackageInfo.installed (List.cons.inj hheld).1
  exact absurd hinstalled (by decide)

/-- The packages of the output of `dpkg-query` are found as they are exactly when each is installed
if its status looks so. -/
theorem dpkg_faithful_iff (rs : List DpkgRecord) :
    (parseList .apt (dpkgOutput dpkgFormat rs)).map PackageInfo.key =
        rs.map (fun r ↦ (String.ofList r.name, decide (r.state = "installed".toList))) ↔
      ∀ r ∈ rs, r.state = "installed".toList ↔ r.LooksInstalled := by
  rw [parseList_dpkg, List.map_map, List.map_eq_map_iff]
  refine forall₂_congr fun r _ ↦ ?_
  simp only [Function.comp_apply, PackageInfo.key, DpkgRecord.info, Prod.mk.injEq, true_and,
    decide_eq_decide]
  exact iff_comm

/-! ## apt-cache -/

/-- The name of a package of the dpkg parser is its trimmed first piece. -/
theorem name_of_parseDpkgLine {piece rest : List Char} (hpiece : '\t' ∉ piece) {p : PackageInfo}
    (h : parseDpkgLine (piece ++ '\t' :: rest) = some p) : p.name = String.ofList (trim piece) := by
  rw [parseDpkgLine, splitn_append 2 rest hpiece] at h
  cases hmore : splitn 3 '\t' rest with
  | nil =>
      rw [hmore] at h
      cases h
  | cons version more =>
      simp only [hmore] at h
      split at h
      · cases h
      · exact (congrArg PackageInfo.name (Option.some.inj h)).symm

namespace AptRecord

/-- A line of `apt-cache search` is parsed to nothing or to a name with a blank in it. -/
theorem blank_mem_of_parse (r : AptRecord) {p : PackageInfo}
    (h : parseDpkgLine (stripCr r.line) = some p) : ' ' ∈ p.name.toList := by
  have hcr : (' ' : Char) ≠ '\r' := by decide
  have hdash : ('-' : Char) ≠ '\r' := by decide
  have hws : isWhitespace '\t' = true := by decide
  have htab : '\t' ∉ r.name := notMem_of_isWord r.name_isWord hws
  have hline : stripCr r.line = (r.name ++ [' ', '-']) ++ ' ' :: stripCr r.summary := by
    rw [line, stripCr_append hcr, ← List.nil_append ('-' :: _), stripCr_append hdash,
      ← List.nil_append (' ' :: r.summary), stripCr_append hcr]
    simp
  generalize stripCr r.line = l at h hline
  -- the first piece goes beyond the dash, since there is no tab before it
  rcases splitOnce_spec '\t' l with ⟨-, hnone⟩ | ⟨piece, rest, -, hl, hpiece⟩
  · rw [parseDpkgLine, splitn_of_notMem 3 hnone] at h
    cases h
  · obtain ⟨more, hmore⟩ : ∃ more, piece = r.name ++ ' ' :: '-' :: more := by
      have hprefix : r.name ++ [' ', '-'] <+: piece ++ '\t' :: rest := by
        rw [← hl, hline]
        exact List.prefix_append _ _
      rw [prefix_append_sep_iff (by simp [htab])] at hprefix
      obtain ⟨more, hmore⟩ := hprefix
      exact ⟨more, by rw [← hmore]; simp⟩
    have htrim : ' ' ∈ trim piece := by
      have hshape : piece = r.name ++ ((' ' :: []) ++ '-' :: more) := by rw [hmore]; rfl
      rw [hshape, trim_append r.name_isWord, trimEnd_append_cons (by decide)]
      simp
    rw [name_of_parseDpkgLine hpiece (hl ▸ h), String.toList_ofList]
    exact htrim

theorem newline_notMem_line (r : AptRecord) : '\n' ∉ r.line := by
  have hname := notMem_of_isWord r.name_isWord (c := '\n') (by decide)
  simp [line, hname, r.newline_notMem]

end AptRecord

/-- The packages of `apt-cache search` are found only when there are none. -/
theorem apt_faithful_iff (rs : List AptRecord) :
    (parseList .apt (unlines (rs.map AptRecord.line))).map PackageInfo.key =
        rs.map (fun r ↦ (String.ofList r.name, r.installed)) ↔ rs = [] := by
  constructor
  · intro h
    by_contra hne
    obtain ⟨r, rs', rfl⟩ := List.exists_cons_of_ne_nil hne
    have hlines : ∀ l ∈ (r :: rs').map AptRecord.line, '\n' ∉ l :=
      List.forall_mem_map.mpr fun r _ ↦ r.newline_notMem_line
    -- a package with the name of the first one would have a name with a blank in it
    have hmem : (String.ofList r.name, r.installed) ∈
        (parseList .apt (unlines ((r :: rs').map AptRecord.line))).map PackageInfo.key := by
      rw [h]
      exact List.mem_cons_self
    obtain ⟨p, hp, hkey⟩ := List.mem_map.mp hmem
    rw [parseList, parseDpkgQuery, lines_unlines_map hlines] at hp
    obtain ⟨l, hl, hparse⟩ := List.mem_filterMap.mp hp
    simp only [List.map_map, List.mem_map, Function.comp_apply] at hl
    obtain ⟨r', -, rfl⟩ := hl
    have hblank := r'.blank_mem_of_parse hparse
    obtain ⟨hname, -⟩ := Prod.mk.inj hkey
    rw [hname, String.toList_ofList] at hblank
    exact notMem_of_isWord r.name_isWord (by decide) hblank
  · rintro rfl
    rfl

/-! ## dnf -/

namespace DnfRecord

variable (r : DnfRecord)

/-- The first column of a line. -/
def nameArch (r : DnfRecord) : List Char := r.name ++ '.' :: r.arch

/-- The last column of a line. -/
def shownRepo (installed : Bool) (r : DnfRecord) : List Char :=
  if installed then '@' :: r.repo else r.repo

theorem nameArch_isWord : IsWord r.nameArch where
  ne_nil := by simp [nameArch]
  solid c hc := by
    rcases List.mem_append.mp hc with hc | hc
    · exact r.name_isWord.solid c hc
    · rcases List.mem_cons.mp hc with rfl | hc
      · decide
      · exact r.arch_isWord.solid c hc

theorem shownRepo_isWord (installed : Bool) : IsWord (r.shownRepo installed) := by
  cases installed with
  | false => exact r.repo_isWord
  | true =>
      refine ⟨List.cons_ne_nil _ _, fun c hc ↦ ?_⟩
      rcases List.mem_cons.mp hc with rfl | hc
      · decide
      · exact r.repo_isWord.solid c hc

theorem at_prefix_shownRepo (installed : Bool) :
    "@".toList.isPrefixOf (r.shownRepo installed) = installed := by
  cases installed with
  | true => rfl
  | false =>
      obtain ⟨c, repo, hrepo⟩ := List.exists_cons_of_ne_nil r.repo_isWord.ne_nil
      have hc : c ≠ '@' := fun h ↦ r.repo_head (by rw [hrepo, h]; rfl)
      show "@".toList.isPrefixOf r.repo = false
      rw [hrepo, Bool.eq_false_iff, Ne, List.isPrefixOf_iff_prefix]
      rintro ⟨t, ht⟩
      exact hc (List.cons.inj ht).1.symm

theorem line_eq (installed : Bool) :
    r.line installed = r.nameArch ++ ' ' :: (List.replicate r.gap ' ' ++ (r.version ++ ' ' ::
      (List.replicate r.gap' ' ' ++ r.shownRepo installed))) := rfl

/-- A line begins and ends with a word. -/
theorem trim_line (installed : Bool) : trim (r.line installed) = r.line installed := by
  have hshape : r.line installed = r.nameArch ++ ((' ' :: (List.replicate r.gap ' ' ++
      (r.version ++ ' ' :: List.replicate r.gap' ' '))) ++ r.shownRepo installed) := by
    rw [line_eq]
    simp
  rw [hshape, trim_between_words r.nameArch_isWord (r.shownRepo_isWord installed)]

/-- The columns of a line. -/
theorem splitWhitespace_line (installed : Bool) :
    splitWhitespace (r.line installed) = [r.nameArch, r.version, r.shownRepo installed] := by
  have hws : isWhitespace ' ' = true := by decide
  rw [line_eq, splitWhitespace_append r.nameArch_isWord hws, splitWhitespace_blanks,
    splitWhitespace_append r.version_isWord hws, splitWhitespace_blanks,
    splitWhitespace_word (r.shownRepo_isWord installed)]

/-- A line begins like a header when its name does. -/
theorem isPrefixOf_line {header : List Char} (hdot : '.' ∉ header) (installed : Bool) :
    header.isPrefixOf (r.line installed) = decide (header <+: r.name) := by
  have hshape : r.line installed = r.name ++ '.' :: (r.arch ++ ' ' :: (List.replicate r.gap ' ' ++
      (r.version ++ ' ' :: (List.replicate r.gap' ' ' ++ r.shownRepo installed)))) := by
    rw [line_eq, nameArch]
    simp
  rw [Bool.eq_iff_iff, List.isPrefixOf_iff_prefix, decide_eq_true_iff, hshape,
    prefix_append_sep_iff hdot]

theorem parseDnfLine_line (installed : Bool) :
    parseDnfLine (r.line installed) =
      if LooksLikeHeader r.name then none
      else some ⟨String.ofList r.name, String.ofList r.version, installed, none⟩ := by
  have hempty : (r.line installed).isEmpty = false := by
    rw [line_eq, List.isEmpty_eq_false_iff]
    simp
  rw [parseDnfLine]
  simp only [r.trim_line, r.isPrefixOf_line (show '.' ∉ "Installed".toList by decide),
    r.isPrefixOf_line (show '.' ∉ "Available".toList by decide), hempty, splitWhitespace_line,
    nameArch, rsplitOnce_append r.dot_notMem, LooksLikeHeader, List.head?_cons, Option.map_some,
    at_prefix_shownRepo, Option.getD_some, Bool.or_false, Bool.or_eq_true, decide_eq_true_iff]
  exact if_congr Iff.rfl rfl rfl

theorem newline_notMem_line (installed : Bool) : '\n' ∉ r.line installed := by
  have hws : isWhitespace '\n' = true := by decide
  have hname := notMem_of_isWord r.nameArch_isWord hws
  have hversion := notMem_of_isWord r.version_isWord hws
  have hrepo := notMem_of_isWord (r.shownRepo_isWord installed) hws
  simp [line_eq, hname, hversion, hrepo]

end DnfRecord

/-- Headers are skipped. -/
theorem filterMap_underHeader {header : String} (hheader : parseDnfLine header.toList = none)
    (ls : List (List Char)) :
    (underHeader header ls).filterMap parseDnfLine = ls.filterMap parseDnfLine := by
  cases ls with
  | nil => rfl
  | cons l ls => rw [underHeader, if_neg (by simp), List.filterMap_cons_none hheader]

/-- Leaving some out gives all exactly when none is left out. -/
theorem filterMap_ite_eq_map_iff {α β : Type} {p : α → Prop} [DecidablePred p] {f : α → β}
    (xs : List α) :
    (xs.filterMap fun x ↦ if p x then none else some (f x)) = xs.map f ↔ ∀ x ∈ xs, ¬ p x := by
  constructor
  · intro h x hx hp
    have hlen := congrArg List.length h
    rw [List.length_map, List.filterMap_length_eq_length] at hlen
    have hsome := hlen x hx
    rw [if_pos hp] at hsome
    cases hsome
  · intro h
    rw [← List.filterMap_eq_map]
    exact List.filterMap_congr fun x hx ↦ by rw [if_neg (h x hx)]; rfl

theorem newline_notMem_underHeader {header : String} (hheader : '\n' ∉ header.toList)
    {ls : List (List Char)} (hls : ∀ l ∈ ls, '\n' ∉ l) : ∀ l ∈ underHeader header ls, '\n' ∉ l := by
  intro l hl
  rw [underHeader] at hl
  split at hl
  · cases hl
  · rcases List.mem_cons.mp hl with rfl | hl
    · exact hheader
    · exact hls l hl

theorem DnfListing.newline_notMem_lines (l : DnfListing) : ∀ line ∈ l.lines, '\n' ∉ line := by
  have hgroup : ∀ (installed : Bool) (rs : List DnfRecord),
      ∀ line ∈ rs.map (DnfRecord.line installed), '\n' ∉ line := fun installed rs ↦
    List.forall_mem_map.mpr fun r _ ↦ r.newline_notMem_line installed
  intro line hline
  rcases List.mem_append.mp hline with hline | hline
  · exact newline_notMem_underHeader (by decide) (hgroup true _) line hline
  · exact newline_notMem_underHeader (by decide) (hgroup false _) line hline

/-- What is shown, each package with whether it is installed. -/
def DnfListing.shown (l : DnfListing) : List (DnfRecord × Bool) :=
  l.installed.map (fun r ↦ (r, true)) ++ l.available.map fun r ↦ (r, false)

/-- The packages under one header: all that do not look like a header. -/
theorem filterMap_group (installed : Bool) (rs : List DnfRecord) :
    ((rs.map (DnfRecord.line installed)).filterMap parseDnfLine).map PackageInfo.key =
      (rs.map fun r ↦ (r, installed)).filterMap fun x ↦
        if LooksLikeHeader x.1.name then none else some (String.ofList x.1.name, x.2) := by
  rw [List.filterMap_map, List.filterMap_map, List.map_filterMap]
  refine List.filterMap_congr fun r _ ↦ ?_
  simp only [Function.comp_apply, r.parseDnfLine_line]
  split <;> rfl

/-- What a listing by `dnf list` is parsed to. -/
theorem parseList_dnf (l : DnfListing) :
    (parseList .dnf (unlines l.lines)).map PackageInfo.key =
      l.shown.filterMap fun x ↦
        if LooksLikeHeader x.1.name then none else some (String.ofList x.1.name, x.2) := by
  rw [parseList, parseDnfList,
    filterMap_lines_unlines parseDnfLine_stripCr l.newline_notMem_lines, DnfListing.lines,
    List.filterMap_append, filterMap_underHeader (by decide), filterMap_underHeader (by decide),
    List.map_append, filterMap_group, filterMap_group, ← List.filterMap_append]
  rfl

/-- The packages of `dnf list` are found when none of them is taken for a header. -/
theorem dnf_faithful_iff (l : DnfListing) :
    (parseList .dnf (unlines l.lines)).map PackageInfo.key =
        l.installed.map (fun r ↦ (String.ofList r.name, true)) ++
          l.available.map (fun r ↦ (String.ofList r.name, false)) ↔
      ∀ r ∈ l.installed ++ l.available, ¬ LooksLikeHeader r.name := by
  have hkeys : l.installed.map (fun r ↦ (String.ofList r.name, true)) ++
      l.available.map (fun r ↦ (String.ofList r.name, false)) =
        l.shown.map fun x ↦ (String.ofList x.1.name, x.2) := by
    rw [DnfListing.shown, List.map_append, List.map_map, List.map_map]
    rfl
  have hrecords : l.shown.map Prod.fst = l.installed ++ l.available := by
    rw [DnfListing.shown, List.map_append, List.map_map, List.map_map]
    exact congrArg₂ (· ++ ·) (List.map_id _) (List.map_id _)
  rw [parseList_dnf, hkeys, filterMap_ite_eq_map_iff, ← hrecords, List.forall_mem_map]

/-! ## pacman -/

namespace PacmanRecord

variable (r : PacmanRecord)

theorem parsePacmanLine_line :
    parsePacmanLine r.line = some ⟨String.ofList r.name, String.ofList r.version, true, none⟩ := by
  have hblank := notMem_of_isWord r.name_isWord (c := ' ') (by decide)
  have htrim : trim r.line = r.line := by
    have hshape : r.line = r.name ++ ([' '] ++ r.version) := rfl
    rw [hshape, trim_between_words r.name_isWord r.version_isWord]
  have hempty : r.line.isEmpty = false := by simp [line]
  have hsplit : splitn 2 ' ' r.line = [r.name, r.version] := splitn_append 0 _ hblank
  simp only [parsePacmanLine, htrim, hempty, hsplit, trim_word r.version_isWord]
  rfl

theorem newline_notMem_line : '\n' ∉ r.line := by
  have hws : isWhitespace '\n' = true := by decide
  have hname := notMem_of_isWord r.name_isWord hws
  have hversion := notMem_of_isWord r.version_isWord hws
  simp [line, hname, hversion]

end PacmanRecord

/-- The packages of `pacman -Q` are always found. -/
theorem pacman_faithful (rs : List PacmanRecord) :
    (parseList .pacman (unlines (rs.map PacmanRecord.line))).map PackageInfo.key =
      rs.map fun r ↦ (String.ofList r.name, true) := by
  have hparse : ∀ r : PacmanRecord, parsePacmanLine (stripCr r.line) =
      some ⟨String.ofList r.name, String.ofList r.version, true, none⟩ := by
    intro r
    rw [parsePacmanLine_stripCr, r.parsePacmanLine_line]
  rw [parseList, parsePacmanQuery,
    filterMap_lines_records PacmanRecord.newline_notMem_line hparse, List.map_map]
  rfl

namespace SearchRecord

variable (r : SearchRecord)

/-- The first column of the first line. -/
def repoName (r : SearchRecord) : List Char := r.repo ++ '/' :: r.name

/-- The first line. -/
def title (r : SearchRecord) : List Char :=
  r.repoName ++ ' ' :: (r.version ++ if r.installed then " [installed]".toList else [])

theorem lines_eq : r.lines = [r.title, "    ".toList ++ r.description] := rfl

theorem repoName_isWord : IsWord r.repoName where
  ne_nil := by simp [repoName]
  solid c hc := by
    rcases List.mem_append.mp hc with hc | hc
    · exact r.repo_isWord.solid c hc
    · rcases List.mem_cons.mp hc with rfl | hc
      · decide
      · exact r.name_isWord.solid c hc

theorem repoName_ne_name : r.repoName ≠ r.name := by
  intro h
  have hlen := congrArg List.length h
  rw [repoName, List.length_append, List.length_cons] at hlen
  omega

/-- The first line is parsed to a package with another name. -/
theorem parsePacmanLine_title :
    ∃ version, parsePacmanLine r.title = some ⟨String.ofList r.repoName, version, true, none⟩ := by
  have hblank := notMem_of_isWord r.repoName_isWord (c := ' ') (by decide)
  obtain ⟨v, version, hv⟩ := List.exists_cons_of_ne_nil r.version_isWord.ne_nil
  have hsolid : isWhitespace v = false := r.version_isWord.solid v (hv ▸ List.mem_cons_self)
  -- trimming keeps the blank, for the version comes after it
  obtain ⟨more, hmore⟩ : ∃ more, trim r.title = r.repoName ++ ' ' :: more := by
    have hshape : r.title = r.repoName ++ ([' '] ++ v :: (version ++
        if r.installed then " [installed]".toList else [])) := by
      rw [title, hv]
      rfl
    rw [hshape, trim_append r.repoName_isWord, trimEnd_append_cons hsolid]
    exact ⟨_, rfl⟩
  have hempty : (trim r.title).isEmpty = false := by rw [hmore]; simp
  have hsplit : splitn 2 ' ' (trim r.title) = [r.repoName, more] := by
    rw [hmore]
    exact splitn_append 0 _ hblank
  simp only [parsePacmanLine, hempty, hsplit]
  exact ⟨_, rfl⟩

theorem newline_notMem_lines : ∀ l ∈ r.lines, '\n' ∉ l := by
  have hws : isWhitespace '\n' = true := by decide
  have hrepo := notMem_of_isWord r.repo_isWord hws
  have hname := notMem_of_isWord r.name_isWord hws
  have hversion := notMem_of_isWord r.version_isWord hws
  intro l hl
  rcases List.mem_cons.mp hl with rfl | hl
  · cases hinst : r.installed <;> simp [hrepo, hname, hversion]
  · obtain rfl := List.mem_singleton.mp hl
    simp [r.newline_notMem]

end SearchRecord

/-- The packages of `pacman -Ss` are found only when there are none. -/
theorem pacmanSearch_faithful_iff (rs : List SearchRecord) :
    (parseList .pacman (unlines (rs.flatMap SearchRecord.lines))).map PackageInfo.key =
        rs.map (fun r ↦ (String.ofList r.name, r.installed)) ↔ rs = [] := by
  constructor
  · intro h
    by_contra hne
    obtain ⟨r, rs', rfl⟩ := List.exists_cons_of_ne_nil hne
    have hlines : ∀ l ∈ (r :: rs').flatMap SearchRecord.lines, '\n' ∉ l := by
      intro l hl
      obtain ⟨r, -, hl⟩ := List.mem_flatMap.mp hl
      exact r.newline_notMem_lines l hl
    -- the first package that is found has the name of the first one with its repository
    obtain ⟨version, htitle⟩ := r.parsePacmanLine_title
    rw [parseList, parsePacmanQuery, filterMap_lines_unlines parsePacmanLine_stripCr hlines,
      List.flatMap_cons, r.lines_eq, List.cons_append,
      List.filterMap_cons_some htitle, List.map_cons, List.map_cons] at h
    obtain ⟨hname, -⟩ := Prod.mk.inj (List.cons.inj h).1
    exact r.repoName_ne_name (String.ofList_injective hname)
  · rintro rfl
    rfl

/-! ## Where a name of apk ends -/

theorem not_hasDashDigit_of_cons {c : Char} {cs : List Char} (h : ¬ HasDashDigit (c :: cs)) :
    ¬ HasDashDigit cs := by
  rintro ⟨a, d, b, rfl, hd⟩
  exact h ⟨c :: a, d, b, rfl, hd⟩

/-- A name without a dash before a digit is cut off where the version begins. -/
theorem splitApkNameVersion_append {name : List Char} (hname : ¬ HasDashDigit name) {d : Char}
    (hd : d.isDigit = true) (rest : List Char) :
    splitApkNameVersion (name ++ '-' :: d :: rest) = (name, d :: rest) := by
  induction name with
  | nil =>
      rw [List.nil_append, splitApkNameVersion, if_pos ⟨rfl, hd⟩]
  | cons c cs ih =>
      have hno : ¬ (c = '-' ∧ (cs ++ '-' :: d :: rest).head?.any Char.isDigit = true) := by
        rintro ⟨rfl, hdigit⟩
        cases cs with
        | nil =>
            have hdash : ('-' : Char).isDigit = false := by decide
            rw [List.nil_append, List.head?_cons, Option.any_some, hdash] at hdigit
            cases hdigit
        | cons e cs => exact hname ⟨[], e, cs, rfl, hdigit⟩
      rw [List.cons_append, splitApkNameVersion, if_neg hno, ih (not_hasDashDigit_of_cons hname)]

/-- A name with a dash before a digit is cut inside. -/
theorem length_splitApkNameVersion_lt {name : List Char} (hname : HasDashDigit name)
    (rest : List Char) : (splitApkNameVersion (name ++ rest)).1.length < name.length := by
  induction name with
  | nil =>
      obtain ⟨a, d, b, h, -⟩ := hname
      simp at h
  | cons c cs ih =>
      rw [List.cons_append, splitApkNameVersion]
      split
      · simp
      · rename_i hno
        obtain ⟨a, d, b, h, hd⟩ := hname
        cases a with
        | nil =>
            obtain ⟨rfl, rfl⟩ := List.cons.inj h
            exact absurd ⟨rfl, hd⟩ hno
        | cons a₀ a =>
            obtain ⟨-, rfl⟩ := List.cons.inj h
            exact Nat.succ_lt_succ (ih ⟨a, d, b, rfl, hd⟩)

/-! ## Names and versions of apk -/

/-- The characters of an apk package name. -/
def isApkNameChar (c : Char) : Bool :=
  c.isAlphanum || c == '.' || c == '_' || c == '+' || c == '-'

theorem isWhitespace_of_isApkNameChar {c : Char} (h : isApkNameChar c = true) :
    isWhitespace c = false := by
  rw [Bool.eq_false_iff]
  intro hws
  have halnum : c.isAlphanum = (decide (c.val ≥ 'A'.val ∧ c.val ≤ 'Z'.val) ||
      (c.val ≥ 'a'.val && c.val ≤ 'z'.val) || (c.val ≥ '0'.val && c.val ≤ '9'.val)) := rfl
  simp only [isApkNameChar, halnum, isWhitespace, Bool.or_eq_true, Bool.and_eq_true,
    decide_eq_true_iff, beq_iff_eq, ge_iff_le, UInt32.le_iff_toNat_le, ← UInt32.toNat_inj,
    Char.ext_iff] at h hws
  simp at h hws
  omega

/-- The name of an apk package. -/
structure ApkName where
  text : List Char
  ne_nil : text ≠ []
  chars : ∀ c ∈ text, isApkNameChar c = true

/-- A version of an apk package: a digit, characters other than dashes, and a revision. -/
structure ApkVersion where
  digit : Char
  middle : List Char
  revision : List Char
  digit_isDigit : digit.isDigit = true
  dash_notMem : '-' ∉ middle
  revision_ne_nil : revision ≠ []
  revision_isDigit : ∀ c ∈ revision, c.isDigit = true

def ApkVersion.text (v : ApkVersion) : List Char :=
  v.digit :: (v.middle ++ '-' :: 'r' :: v.revision)

theorem isWhitespace_of_isDigit {c : Char} (h : c.isDigit = true) : isWhitespace c = false :=
  isWhitespace_of_isApkNameChar (by simp [isApkNameChar, Char.isAlphanum, h])

theorem isWord_dash_digit (name : ApkName) {d : Char} (hd : d.isDigit = true) :
    IsWord (name.text ++ ['-', d]) := by
  refine ⟨by simp, fun c hc ↦ ?_⟩
  rcases List.mem_append.mp hc with hc | hc
  · exact isWhitespace_of_isApkNameChar (name.chars c hc)
  · rcases List.mem_cons.mp hc with rfl | hc
    · decide
    · rw [List.mem_singleton.mp hc]
      exact isWhitespace_of_isDigit hd

/-- A line that begins with a name, a dash and a digit is parsed to a package of that name. -/
theorem parseApkLine_append (name : ApkName) (hname : ¬ HasDashDigit name.text) {d : Char}
    (hd : d.isDigit = true) (t : List Char) :
    ∃ p, parseApkLine ((name.text ++ ['-', d]) ++ t) = some p ∧
      p.name = String.ofList name.text := by
  have hword := isWord_dash_digit name hd
  obtain ⟨more, hmore⟩ := head_splitWhitespace hword (trimEnd t)
  have htrim := trim_append hword t
  have hempty : ((name.text ++ ['-', d]) ++ trimEnd t).isEmpty = false := by simp
  have hsplit : splitApkNameVersion ((name.text ++ ['-', d]) ++ more) = (name.text, d :: more) := by
    rw [List.append_assoc]
    exact splitApkNameVersion_append hname hd more
  have hne : name.text.isEmpty = false := List.isEmpty_eq_false_iff.mpr name.ne_nil
  simp only [parseApkLine, htrim, hempty, hmore, Option.getD_some, hsplit, hne]
  exact ⟨_, rfl, rfl⟩

/-- **Names and versions of apk packages.**  A name and a version, put together with a dash, are
taken apart again, and a listing of the package shows it under its name, exactly when no dash of the
name comes before a digit. -/
theorem apk_nameVersion_iff (name : ApkName) (version : ApkVersion) (rest : List Char) :
    (splitApkNameVersion (name.text ++ '-' :: version.text) = (name.text, version.text) ∧
      ∃ p ∈ parseList .apk (name.text ++ '-' :: (version.text ++ ' ' :: rest)),
        p.name = String.ofList name.text) ↔ ¬ HasDashDigit name.text := by
  constructor
  · rintro ⟨hsplit, -⟩ hdash
    have hlt := length_splitApkNameVersion_lt hdash ('-' :: version.text)
    rw [hsplit] at hlt
    exact Nat.lt_irrefl _ hlt
  · intro hname
    refine ⟨splitApkNameVersion_append hname version.digit_isDigit _, ?_⟩
    have hshape : name.text ++ '-' :: (version.text ++ ' ' :: rest) =
        (name.text ++ ['-', version.digit]) ++
          (version.middle ++ '-' :: 'r' :: version.revision ++ ' ' :: rest) := by
      simp [ApkVersion.text]
    obtain ⟨t, l, more, hlines, hl⟩ := exists_first_line
      (isWord_dash_digit name version.digit_isDigit)
      (version.middle ++ '-' :: 'r' :: version.revision ++ ' ' :: rest)
    obtain ⟨p, hparse, hp⟩ := parseApkLine_append name hname version.digit_isDigit t
    have hfirst : parseApkLine l = some p := by
      rcases hl with rfl | rfl
      · exact hparse
      · rw [parseApkLine_stripCr, hparse]
    refine ⟨p, ?_, hp⟩
    rw [hshape, parseList, parseApkList, hlines, List.filterMap_cons_some hfirst]
    exact List.mem_cons_self

/-- `font-adobe-100dpi`. -/
def fontAdobe : ApkName where
  text := "font-adobe-100dpi".toList
  ne_nil := by decide
  chars := List.all_eq_true.mp (by decide)

/-- `1.0.3-r0`. -/
def fontVersion : ApkVersion where
  digit := '1'
  middle := ".0.3".toList
  revision := ['0']
  digit_isDigit := by decide
  dash_notMem := by decide
  revision_ne_nil := by decide
  revision_isDigit := List.all_eq_true.mp (by decide)

theorem apk_fontAdobe_cut :
    ¬ ∀ (name : ApkName) (version : ApkVersion) (rest : List Char),
      splitApkNameVersion (name.text ++ '-' :: version.text) = (name.text, version.text) ∧
        ∃ p ∈ parseList .apk (name.text ++ '-' :: (version.text ++ ' ' :: rest)),
          p.name = String.ofList name.text := by
  intro h
  have hdash : HasDashDigit fontAdobe.text :=
    ⟨"font-adobe".toList, '1', "00dpi".toList, by decide, by decide⟩
  have hlt := length_splitApkNameVersion_lt hdash ('-' :: fontVersion.text)
  rw [(h fontAdobe fontVersion []).1] at hlt
  exact Nat.lt_irrefl _ hlt

/-! ## apk -/

namespace ApkRecord

variable (r : ApkRecord)

/-- The first column of a line. -/
def nameVersion (r : ApkRecord) : List Char := r.name ++ '-' :: r.version

theorem nameVersion_isWord : IsWord r.nameVersion where
  ne_nil := by simp [nameVersion]
  solid c hc := by
    rcases List.mem_append.mp hc with hc | hc
    · exact r.name_isWord.solid c hc
    · rcases List.mem_cons.mp hc with rfl | hc
      · decide
      · exact r.version_isWord.solid c hc

theorem splitApkNameVersion_nameVersion :
    splitApkNameVersion r.nameVersion = (r.name, r.version) := by
  obtain ⟨d, rest, hversion, hd⟩ := r.version_head
  rw [nameVersion, hversion, splitApkNameVersion_append r.not_hasDashDigit hd]

/-- A line ends with a bracket. -/
theorem trim_line : trim r.line = r.line := by
  obtain ⟨front, c, hc, hline⟩ : ∃ front c, isWhitespace c = false ∧
      r.line = r.nameVersion ++ (front ++ [c]) := by
    cases hinst : r.installed with
    | true =>
        exact ⟨' ' :: (r.arch ++ ' ' :: '{' :: (r.origin ++ '}' :: ' ' :: '(' :: (r.license ++
          [')']))) ++ " [installed".toList, ']', by decide, by
            simp [line, text, nameVersion, hinst]⟩
    | false =>
        exact ⟨' ' :: (r.arch ++ ' ' :: '{' :: (r.origin ++ '}' :: ' ' :: '(' :: r.license)), ')',
          by decide, by simp [line, text, nameVersion, hinst]⟩
  rw [hline, trim_append r.nameVersion_isWord, trimEnd_concat hc]

/-- What is marked, or looks so. -/
theorem contains_line :
    contains (String.ofList r.line) "[installed]" =
      (r.installed || decide ("[installed]".toList <:+: r.text)) := by
  rw [contains, @String.toList_ofList r.line]
  cases hinst : r.installed with
  | true =>
      refine decide_eq_true ⟨r.text ++ [' '], [], ?_⟩
      simp [line, hinst]
  | false =>
      have hline : r.line = r.text := by
        rw [line, hinst]
        exact List.append_nil _
      rw [hline, Bool.false_or]

theorem parseApkLine_line :
    parseApkLine r.line = some ⟨String.ofList r.name, String.ofList r.version,
      r.installed || decide ("[installed]".toList <:+: r.text), none⟩ := by
  have hshape : ∃ rest, r.line = r.nameVersion ++ ' ' :: rest := by
    exact ⟨_, by rw [line, text, List.append_assoc, List.cons_append]; rfl⟩
  obtain ⟨rest, hrest⟩ := hshape
  have hempty : r.line.isEmpty = false := by rw [hrest]; simp
  have hfirst : (splitWhitespace r.line).head?.getD [] = r.nameVersion := by
    rw [hrest, splitWhitespace_append r.nameVersion_isWord (by decide)]
    rfl
  have hname : r.name.isEmpty = false := List.isEmpty_eq_false_iff.mpr r.name_isWord.ne_nil
  simp only [parseApkLine, r.trim_line, hempty, hfirst, r.contains_line,
    r.splitApkNameVersion_nameVersion, hname]
  rfl

theorem newline_notMem_line : '\n' ∉ r.line := by
  have hws : isWhitespace '\n' = true := by decide
  have hname := notMem_of_isWord r.name_isWord hws
  have hversion := notMem_of_isWord r.version_isWord hws
  have harch := notMem_of_isWord r.arch_isWord hws
  cases hinst : r.installed <;>
    simp [line, text, hinst, hname, hversion, harch, r.origin_newline_notMem,
      r.license_newline_notMem]

end ApkRecord

/-- What a listing by `apk list` is parsed to. -/
theorem parseList_apk (rs : List ApkRecord) :
    (parseList .apk (unlines (rs.map ApkRecord.line))).map PackageInfo.key =
      rs.map fun r ↦ (String.ofList r.name,
        r.installed || decide ("[installed]".toList <:+: r.text)) := by
  have hline : ∀ r : ApkRecord, parseApkLine (stripCr r.line) =
      some ⟨String.ofList r.name, String.ofList r.version,
        r.installed || decide ("[installed]".toList <:+: r.text), none⟩ := by
    intro r
    rw [parseApkLine_stripCr, r.parseApkLine_line]
  rw [parseList, parseApkList, filterMap_lines_records ApkRecord.newline_notMem_line hline,
    List.map_map]
  rfl

/-- The packages of `apk list` are found when no other one looks marked. -/
theorem apk_faithful_iff (rs : List ApkRecord) :
    (parseList .apk (unlines (rs.map ApkRecord.line))).map PackageInfo.key =
        rs.map (fun r ↦ (String.ofList r.name, r.installed)) ↔
      ∀ r ∈ rs, r.installed = false → ¬ "[installed]".toList <:+: r.text := by
  rw [parseList_apk, List.map_eq_map_iff]
  refine forall₂_congr fun r _ ↦ ?_
  rw [Prod.mk.injEq, eq_self, true_and]
  cases r.installed with
  | true => exact ⟨fun _ h ↦ absurd h (by decide), fun _ ↦ Bool.true_or _⟩
  | false =>
      rw [Bool.false_or, decide_eq_false_iff_not]
      exact ⟨fun h _ ↦ h, fun h ↦ h rfl⟩

/-! ## All commands -/

/-- **Each listing in its own format.**  Whatever the package manager, the query and the setting,
the command that is run prints in one of the formats, and of what it shows the parser finds the
packages with their names and whether they are installed exactly when the listing is readable:
always for `pacman -Q`, never for `apt-cache search` and `pacman -Ss` unless they show nothing, and
for the others when no status, name or license misleads the parser. -/
theorem parseList_faithful_iff (kind : PackageKind) (query : Option String) (installedOnly : Bool) :
    ∃ f, formatOf (buildListArgv kind query installedOnly) = some f ∧
      ∀ l : Listing f, (parseList kind l.print).map PackageInfo.key = l.packages ↔ l.Readable := by
  refine ⟨_, formatOf_buildListArgv kind query installedOnly, ?_⟩
  cases kind with
  | apt =>
      by_cases hq : (installedOnly || query.isNone) = true
      · rw [if_pos hq]
        rintro ⟨⟩
        exact dpkg_faithful_iff _
      · rw [if_neg hq]
        rintro ⟨⟩
        exact apt_faithful_iff _
  | dnf =>
      rintro ⟨⟩
      exact dnf_faithful_iff _
  | pacman =>
      cases installedOnly with
      | true =>
          rintro ⟨⟩
          exact iff_of_true (pacman_faithful _) trivial
      | false =>
          rintro ⟨⟩
          exact pacmanSearch_faithful_iff _
  | apk =>
      rintro ⟨⟩
      exact apk_faithful_iff _

/-- What `pacman -Ss nginx` shows of one package. -/
def nginxSearch : SearchRecord where
  repo := "extra".toList
  name := "nginx".toList
  version := "1.24.0-1".toList
  description := "Lightweight HTTP server".toList
  installed := false
  repo_isWord := by decide
  name_isWord := by decide
  version_isWord := by decide
  newline_notMem := by decide

theorem pacmanSearch_nginx_not_found :
    ¬ ∀ (kind : PackageKind) (query : Option String) (installedOnly : Bool) (f : Format),
      formatOf (buildListArgv kind query installedOnly) = some f →
        ∀ l : Listing f, (parseList kind l.print).map PackageInfo.key = l.packages := by
  intro h
  have hlisting := h .pacman (some "nginx") false .pacmanSearch
    (formatOf_buildListArgv .pacman (some "nginx") false) (.pacmanSearch [nginxSearch])
  exact List.cons_ne_nil _ _ ((pacmanSearch_faithful_iff [nginxSearch]).mp hlisting)

end Vaiexia.Backend
