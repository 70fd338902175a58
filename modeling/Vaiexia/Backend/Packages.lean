import Vaiexia.Lib.Words
import Vaiexia.Backend.Capped
import Vaiexia.Backend.RunJob

/-!
# Listing packages

`build_list_argv`, `parse_list` and the line parsers of
`crates/vaiexia-server/src/backend/packages/query.rs`, and `RealPackageManager::list` of `real.rs`,
which runs the command with a cap on its output and parses what is whole of it.
-/

namespace Vaiexia.Backend

open Vaiexia.Lib Text

/-- `PackageKind`. -/
inductive PackageKind where
  | apt | dnf | pacman | apk
deriving DecidableEq, Repr

/-! ## Arguments -/

/-- `build_apt_list_argv`. -/
def buildAptListArgv (query : Option String) (installedOnly : Bool) : List String :=
  if installedOnly || query.isNone then
    ["/usr/bin/dpkg-query", "-W",
      "-f=$\x7bPackage\x7d\\t$\x7bVersion\x7d\\t$\x7bStatus\x7d\\t$\x7bbinary:Summary\x7d\\n"] ++
      match query with
      | some q => ["--", "*" ++ q ++ "*"]
      | none => []
  else ["/usr/bin/apt-cache", "search", "--names-only", "--"] ++ [query.getD ".*"]

/-- The search term, behind a guard. -/
def searchTerm : Option String → List String
  | some q => ["--", q]
  | none => []

/-- `build_dnf_list_argv`. -/
def buildDnfListArgv (query : Option String) (installedOnly : Bool) : List String :=
  ["/usr/bin/dnf", "list", "--quiet"] ++ (if installedOnly then ["--installed"] else []) ++
    searchTerm query

/-- `build_pacman_list_argv`. -/
def buildPacmanListArgv (query : Option String) (installedOnly : Bool) : List String :=
  if installedOnly then ["/usr/bin/pacman", "-Q"] ++ searchTerm query
  else ["/usr/bin/pacman", "-Ss"] ++ searchTerm query

/-- `build_apk_list_argv`. -/
def buildApkListArgv (query : Option String) (installedOnly : Bool) : List String :=
  ["/sbin/apk", "list"] ++ (if installedOnly then ["--installed"] else []) ++ searchTerm query

/-- `build_list_argv`. -/
def buildListArgv (kind : PackageKind) (query : Option String) (installedOnly : Bool) :
    List String :=
  match kind with
  | .apt => buildAptListArgv query installedOnly
  | .dnf => buildDnfListArgv query installedOnly
  | .pacman => buildPacmanListArgv query installedOnly
  | .apk => buildApkListArgv query installedOnly

/-! ## Line parsers -/

/-- The summary of a package: none when nothing is left of it. -/
def summaryOf (cs : List Char) : Option String :=
  if (trim cs).isEmpty then none else some (String.ofList (trim cs))

/-- A line of `parse_dpkg_query`. -/
def parseDpkgLine (line : List Char) : Option PackageInfo :=
  match splitn 4 '\t' line with
  | name :: version :: more =>
      let status : List Char :=
        match more with
        | status :: _ => trim status
        | [] => []
      let summary : Option String :=
        match more with
        | _ :: summary :: _ => summaryOf summary
        | _ => none
      let installed := contains (String.ofList status) "install ok installed"
      if (trim name).isEmpty then none
      else some ⟨String.ofList (trim name), String.ofList (trim version), installed, summary⟩
  | _ => none

/-- `parse_dpkg_query`. -/
def parseDpkgQuery (stdout : List Char) : List PackageInfo :=
  (lines stdout).filterMap parseDpkgLine

/-- A line of `parse_dnf_list`. -/
def parseDnfLine (line : List Char) : Option PackageInfo :=
  let line := trim line
  if "Installed".toList.isPrefixOf line || "Available".toList.isPrefixOf line || line.isEmpty then
    none
  else
    match splitWhitespace line with
    | nameArch :: version :: more =>
        let name := ((rsplitOnce '.' nameArch).map Prod.fst).getD nameArch
        let installed := (more.head?.map fun r ↦ "@".toList.isPrefixOf r).getD false
        some ⟨String.ofList name, String.ofList version, installed, none⟩
    | _ => none

/-- `parse_dnf_list`. -/
def parseDnfList (stdout : List Char) : List PackageInfo :=
  (lines stdout).filterMap parseDnfLine

/-- A line of `parse_pacman_query`. -/
def parsePacmanLine (line : List Char) : Option PackageInfo :=
  let line := trim line
  if line.isEmpty then none
  else
    match splitn 2 ' ' line with
    | name :: version :: _ => some ⟨String.ofList name, String.ofList (trim version), true, none⟩
    | _ => none

/-- `parse_pacman_query`. -/
def parsePacmanQuery (stdout : List Char) : List PackageInfo :=
  (lines stdout).filterMap parsePacmanLine

/-- `split_apk_name_version`: cut at the first dash that a digit comes after.  The source looks for
it among the bytes; dashes and digits are single bytes, and no part of other characters. -/
def splitApkNameVersion : List Char → List Char × List Char
  | [] => ([], [])
  | c :: cs =>
      if c = '-' ∧ cs.head?.any Char.isDigit then ([], cs)
      else (c :: (splitApkNameVersion cs).1, (splitApkNameVersion cs).2)

/-- A line of `parse_apk_list`. -/
def parseApkLine (line : List Char) : Option PackageInfo :=
  let line := trim line
  if line.isEmpty then none
  else
    let installed := contains (String.ofList line) "[installed]"
    let first := (splitWhitespace line).head?.getD []
    let (name, version) := splitApkNameVersion first
    if name.isEmpty then none
    else some ⟨String.ofList name, String.ofList version, installed, none⟩

/-- `parse_apk_list`. -/
def parseApkList (stdout : List Char) : List PackageInfo :=
  (lines stdout).filterMap parseApkLine

/-- `parse_list`. -/
def parseList (kind : PackageKind) (stdout : List Char) : List PackageInfo :=
  match kind with
  | .apt => parseDpkgQuery stdout
  | .dnf => parseDnfList stdout
  | .pacman => parsePacmanQuery stdout
  | .apk => parseApkList stdout

/-! ## The provider -/

/-- `MAX_OUTPUT_BYTES` of a listing. -/
def maxListBytes : Nat := 16 * 1024 * 1024

/-- A child as `run_capped` sees it: what each read of its output brings, whether it is done before
the deadline, and whether it exits with success then. -/
structure ChildReads where
  reads : List Chunk
  inTime : Bool
  success : Bool

/-- `run_capped`, of a child that was spawned; `none` is a panic. -/
def runCappedReads (cap : Nat) (child : ChildReads) : Option RunOutcome :=
  if !child.inTime then some ⟨[], false, true, false⟩
  else
    (readCapped cap child.reads).map fun read ↦
      if read.truncated then ⟨read.bytes, true, false, false⟩
      else ⟨read.bytes, false, false, child.success⟩

/-- Where the last line of the bytes begins: after the last newline, or at 0. -/
def cutLen (bs : Bytes) : Nat :=
  match bs.reverse.findIdx? (· == 10) with
  | some i => bs.length - i
  | none => 0

/-- `RealPackageManager::list`, with a cap on the output.  `spawn` runs a program with its
arguments, `none` when it cannot be spawned or reading from it fails; the outer `none` is a
panic. -/
def listPackages (cap : Nat) (kind : PackageKind)
    (spawn : String → List String → Option ChildReads) (query : Option String)
    (installedOnly : Bool) : Option (Except BackendError (Page PackageInfo)) :=
  match buildListArgv kind query installedOnly with
  | [] => none
  | program :: args =>
      match spawn program args with
      | none => some (.error .unavailable)
      | some child =>
          (runCappedReads cap child).map fun out ↦
            if out.timedOut then .error .timeout
            else
              let stdout :=
                if out.truncated then out.stdout.take (cutLen out.stdout) else out.stdout
              .ok ⟨parseList kind (Utf8.decodeLossy stdout), none⟩

/-! ## A capped listing -/

theorem runCappedReads_eq (cap : Nat) (child : ChildReads) :
    runCappedReads cap child =
      some (runCapped cap ⟨stream child.reads, child.inTime, child.success⟩) := by
  rw [runCappedReads, runCapped, readCapped_eq]
  cases child.inTime with
  | false => rfl
  | true =>
      by_cases hlong : cap < (stream child.reads).length
      · simp [hlong]
      · have htake := List.take_of_length_le (Nat.not_lt.mp hlong)
        simp [hlong, htake]

/-- What is kept of a cut output ends a line, or is empty. -/
theorem take_cutLen (bs : Bytes) :
    bs.take (cutLen bs) = [] ∨ ∃ kept, bs.take (cutLen bs) = kept ++ [10] := by
  rw [cutLen]
  cases hfind : bs.reverse.findIdx? (· == 10) with
  | none => exact .inl rfl
  | some i =>
      obtain ⟨hi, hten, -⟩ := List.findIdx?_eq_some_iff_getElem.mp hfind
      rw [List.length_reverse] at hi
      rw [beq_iff_eq, List.getElem_reverse] at hten
      have hpos : bs.length - i = (bs.length - 1 - i) + 1 := by omega
      refine .inr ⟨bs.take (bs.length - 1 - i), ?_⟩
      show bs.take (bs.length - i) = _
      rw [hpos, List.take_succ_eq_append_getElem (by omega), hten]

/-- Lines that were ended are parsed on their own. -/
theorem parseList_append (kind : PackageKind) {a : List Char} (ha : EndsLine a) (b : List Char) :
    parseList kind (a ++ b) = parseList kind a ++ parseList kind b := by
  cases kind <;>
    simp only [parseList, parseDpkgQuery, parseDnfList, parsePacmanQuery, parseApkList,
      lines_append ha, List.filterMap_append]

/-- **What whole lines are parsed to** comes first, whatever bytes come after them. -/
theorem parseList_prefix (kind : PackageKind) {kept : Bytes}
    (hkept : kept = [] ∨ ∃ front, kept = front ++ [10]) (rest : Bytes) :
    parseList kind (Utf8.decodeLossy kept) <+:
      parseList kind (Utf8.decodeLossy (kept ++ rest)) := by
  rcases hkept with rfl | ⟨front, rfl⟩
  · cases kind <;> exact List.nil_prefix
  · have hends : EndsLine (Utf8.decodeLossy (front ++ [10])) := by
      rw [Utf8.decodeLossy_newline]
      exact .inr ⟨_, rfl⟩
    have hsplit : Utf8.decodeLossy (front ++ [10] ++ rest) =
        Utf8.decodeLossy (front ++ [10]) ++ Utf8.decodeLossy rest := by
      rw [List.append_assoc, List.singleton_append, Utf8.decodeLossy_newline,
        Utf8.decodeLossy_newline, List.append_assoc]
      rfl
    rw [hsplit, parseList_append kind hends]
    exact List.prefix_append _ _

/-- What a listing keeps of the output of its command. -/
def keptOutput (cap : Nat) (output : Bytes) : Bytes :=
  if cap < output.length then (output.take cap).take (cutLen (output.take cap)) else output

theorem exists_buildListArgv (kind : PackageKind) (query : Option String) (installedOnly : Bool) :
    ∃ program args, buildListArgv kind query installedOnly = program :: args := by
  cases kind with
  | apt =>
      rw [buildListArgv, buildAptListArgv.eq_def]
      split
      · exact ⟨_, _, rfl⟩
      · exact ⟨_, _, rfl⟩
  | dnf => exact ⟨_, _, rfl⟩
  | pacman =>
      rw [buildListArgv, buildPacmanListArgv]
      split
      · exact ⟨_, _, rfl⟩
      · exact ⟨_, _, rfl⟩
  | apk => exact ⟨_, _, rfl⟩

/-- **A listing of a command that ends in time** is what is parsed of the output that is kept. -/
theorem listPackages_eq (cap : Nat) (kind : PackageKind) (reads : List Chunk) (success : Bool)
    (query : Option String) (installedOnly : Bool) :
    listPackages cap kind (fun _ _ ↦ some ⟨reads, true, success⟩) query installedOnly =
      some (.ok ⟨parseList kind (Utf8.decodeLossy (keptOutput cap (stream reads))), none⟩) := by
  obtain ⟨program, args, hargv⟩ := exists_buildListArgv kind query installedOnly
  rw [listPackages, hargv]
  dsimp only
  rw [runCappedReads_eq, runCapped, keptOutput, Option.map_some]
  by_cases hlong : cap < (stream reads).length
  · simp [hlong]
  · simp [hlong]

/-- The bytes that are kept are the first ones, up to the end of a line unless they are all. -/
theorem keptOutput_prefix (cap : Nat) (output : Bytes) :
    keptOutput cap output = output ∨
      ∃ rest, output = keptOutput cap output ++ rest ∧
        (keptOutput cap output = [] ∨ ∃ front, keptOutput cap output = front ++ [10]) := by
  rw [keptOutput]
  split
  · refine .inr ⟨(output.take cap).drop (cutLen (output.take cap)) ++ output.drop cap, ?_,
      take_cutLen _⟩
    rw [← List.append_assoc, List.take_append_drop, List.take_append_drop]
  · exact .inl rfl

/-- **A capped listing.**  However the output of a command is divided into reads, what is listed of
the part that fits under the cap is a beginning of what is listed of all of it; `read_capped`
returns the bytes that fit, and whether there are more, and does not underflow. -/
theorem listPackages_capped (kind : PackageKind) (query : Option String) (installedOnly : Bool)
    (reads reads' : List Chunk) (hreads : stream reads' = stream reads) (cap whole : Nat)
    (hwhole : (stream reads').length ≤ whole) (success success' : Bool) :
    (∃ items full,
      listPackages cap kind (fun _ _ ↦ some ⟨reads, true, success⟩) query installedOnly =
        some (.ok ⟨items, none⟩) ∧
      listPackages whole kind (fun _ _ ↦ some ⟨reads', true, success'⟩) query installedOnly =
        some (.ok ⟨full, none⟩) ∧
      items <+: full) ∧
    readCapped cap reads =
      some ⟨(stream reads).take (min cap (stream reads).length),
        decide (cap < (stream reads).length)⟩ := by
  constructor
  · refine ⟨_, _, listPackages_eq .., listPackages_eq .., ?_⟩
    have hall : keptOutput whole (stream reads') = stream reads' :=
      if_neg (Nat.not_lt.mpr hwhole)
    rw [hall, hreads]
    rcases keptOutput_prefix cap (stream reads) with hsame | ⟨rest, hrest, hkept⟩
    · rw [hsame]
    · have hprefix := parseList_prefix kind hkept rest
      rwa [← hrest] at hprefix
  · rw [readCapped_eq, List.take_eq_take_iff.mpr]
    omega

/-- The output `a 1`, `b 2` of `pacman -Q`, in two reads. -/
def twoReads : List Chunk :=
  [⟨[0x61, 0x20, 0x31, 10, 0x62], by decide⟩, ⟨[0x20, 0x32, 10], by decide⟩]

theorem listPackages_capped_twoReads :
    (∃ items full,
      listPackages 6 .pacman (fun _ _ ↦ some ⟨twoReads, true, false⟩) none true =
        some (.ok ⟨items, none⟩) ∧
      listPackages maxListBytes .pacman (fun _ _ ↦ some ⟨twoReads, true, true⟩) none true =
        some (.ok ⟨full, none⟩) ∧
      items <+: full) ∧
    readCapped 6 twoReads = some ⟨(stream twoReads).take (min 6 (stream twoReads).length),
      decide (6 < (stream twoReads).length)⟩ :=
  listPackages_capped .pacman none true twoReads twoReads rfl 6 maxListBytes (by decide) false true

end Vaiexia.Backend
