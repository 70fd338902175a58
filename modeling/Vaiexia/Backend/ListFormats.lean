import Vaiexia.Backend.Packages

/-!
# What the listing commands print

The output formats of the commands that `build_list_argv` can select, each with the packages that a
text in it shows, and what `parse_list` makes of such a text.

The parser is chosen by the package manager alone, the command also by the query and by
`installed_only`.  So the output of `apt-cache search` and of `pacman -Ss` goes to the parser of
another format, which finds none of the packages (`parseList_faithful_iff`).
-/

namespace Vaiexia.Backend

open Vaiexia.Lib Text

/-! ## dpkg-query -/

/-- What `dpkg-query` knows of a package, as far as it is asked for. -/
structure DpkgRecord where
  name : List Char
  version : List Char
  want : List Char
  flag : List Char
  state : List Char
  summary : List Char
  name_isWord : IsWord name
  version_isWord : IsWord version
  want_isWord : IsWord want
  flag_isWord : IsWord flag
  state_isWord : IsWord state
  tab_notMem : '\t' ∉ summary
  newline_notMem : '\n' ∉ summary

namespace DpkgRecord

/-- `${Status}`. -/
def status (r : DpkgRecord) : List Char := r.want ++ ' ' :: (r.flag ++ ' ' :: r.state)

/-- The values of the fields that the format can name. -/
def field (r : DpkgRecord) (key : List Char) : List Char :=
  if key = "Package".toList then r.name
  else if key = "Version".toList then r.version
  else if key = "Status".toList then r.status
  else if key = "binary:Summary".toList then r.summary
  else []

/-- The line of a record in the format that is asked for. -/
def line (r : DpkgRecord) : List Char :=
  r.name ++ '\t' :: (r.version ++ '\t' :: (r.status ++ '\t' :: r.summary))

end DpkgRecord

/-- Where the reading of a `-f` format is. -/
inductive FormatMode where
  | text
  | escape
  | dollar
  | field (key : List Char)

/-- What is printed for a `-f` format, given the values of the fields. -/
def expandFormat (value : List Char → List Char) : FormatMode → List Char → List Char
  | .text, c :: cs =>
      if c = '\\' then expandFormat value .escape cs
      else if c = '$' then expandFormat value .dollar cs
      else c :: expandFormat value .text cs
  | .escape, c :: cs =>
      (if c = 't' then '\t' else if c = 'n' then '\n' else c) :: expandFormat value .text cs
  | .dollar, c :: cs =>
      if c = '{' then expandFormat value (.field []) cs
      else '$' :: c :: expandFormat value .text cs
  | .field key, c :: cs =>
      if c = '}' then value key ++ expandFormat value .text cs
      else expandFormat value (.field (key ++ [c])) cs
  | _, [] => []

/-- What `dpkg-query -W -f=…` prints. -/
def dpkgOutput (format : List Char) (rs : List DpkgRecord) : List Char :=
  rs.flatMap fun r ↦ expandFormat r.field .text format

/-- The format in the arguments. -/
def dpkgFormat : List Char :=
  "$\x7bPackage\x7d\\t$\x7bVersion\x7d\\t$\x7bStatus\x7d\\t$\x7bbinary:Summary\x7d\\n".toList

section Expand

variable (value : List Char → List Char)

theorem expandFormat_field {key : List Char} (hkey : '}' ∉ key) (before rest : List Char) :
    expandFormat value (.field before) (key ++ '}' :: rest) =
      value (before ++ key) ++ expandFormat value .text rest := by
  induction key generalizing before with
  | nil => simp [expandFormat]
  | cons c key ih =>
      have hc : c ≠ '}' := fun h ↦ hkey (h ▸ List.mem_cons_self)
      rw [List.cons_append, expandFormat, if_neg hc, ih fun h ↦ hkey (List.mem_cons_of_mem c h),
        List.append_assoc, List.singleton_append]

/-- A field's name in braces is replaced by its value. -/
theorem expandFormat_placeholder {key : List Char} (hkey : '}' ∉ key) (rest : List Char) :
    expandFormat value .text ('$' :: '{' :: (key ++ '}' :: rest)) =
      value key ++ expandFormat value .text rest := by
  have hdollar : ('$' : Char) ≠ '\\' := by decide
  rw [expandFormat, if_neg hdollar, if_pos rfl, expandFormat, if_pos rfl,
    expandFormat_field value hkey, List.nil_append]

theorem expandFormat_tab (rest : List Char) :
    expandFormat value .text ('\\' :: 't' :: rest) = '\t' :: expandFormat value .text rest := by
  rw [expandFormat, if_pos rfl, expandFormat, if_pos rfl]

theorem expandFormat_newline (rest : List Char) :
    expandFormat value .text ('\\' :: 'n' :: rest) = '\n' :: expandFormat value .text rest := by
  have hn : ('n' : Char) ≠ 't' := by decide
  rw [expandFormat, if_pos rfl, expandFormat, if_neg hn, if_pos rfl]

end Expand

theorem expandFormat_dpkgFormat (r : DpkgRecord) :
    expandFormat r.field .text dpkgFormat = r.line ++ ['\n'] := by
  have hformat : dpkgFormat = '$' :: '{' :: ("Package".toList ++ '}' :: '\\' :: 't' ::
      '$' :: '{' :: ("Version".toList ++ '}' :: '\\' :: 't' ::
      '$' :: '{' :: ("Status".toList ++ '}' :: '\\' :: 't' ::
      '$' :: '{' :: ("binary:Summary".toList ++ '}' :: ['\\', 'n'])))) := by decide
  have hfields : r.field "Package".toList = r.name ∧ r.field "Version".toList = r.version ∧
      r.field "Status".toList = r.status ∧ r.field "binary:Summary".toList = r.summary :=
    ⟨if_pos rfl, by rw [DpkgRecord.field, if_neg (by decide), if_pos rfl],
      by rw [DpkgRecord.field, if_neg (by decide), if_neg (by decide), if_pos rfl],
      by rw [DpkgRecord.field, if_neg (by decide), if_neg (by decide), if_neg (by decide),
        if_pos rfl]⟩
  obtain ⟨hname, hversion, hstatus, hsummary⟩ := hfields
  rw [hformat, expandFormat_placeholder _ (by decide), expandFormat_tab,
    expandFormat_placeholder _ (by decide), expandFormat_tab,
    expandFormat_placeholder _ (by decide), expandFormat_tab,
    expandFormat_placeholder _ (by decide), expandFormat_newline, hname, hversion, hstatus,
    hsummary]
  simp [expandFormat, DpkgRecord.line]

/-- The output is the lines of the records. -/
theorem dpkgOutput_dpkgFormat (rs : List DpkgRecord) :
    dpkgOutput dpkgFormat rs = unlines (rs.map DpkgRecord.line) := by
  rw [dpkgOutput, unlines, List.flatMap_map]
  exact congrArg (rs.flatMap ·) (funext expandFormat_dpkgFormat)

namespace DpkgRecord

/-- The package that a record shows. -/
def info (r : DpkgRecord) : PackageInfo where
  name := String.ofList r.name
  version := String.ofList r.version
  installed := decide (r.state = "installed".toList)
  summary := summaryOf r.summary

/-- What the parser takes for the status of an installed package. -/
def LooksInstalled (r : DpkgRecord) : Prop :=
  "install".toList <:+ r.want ∧ r.flag = "ok".toList ∧ "installed".toList <+: r.state

instance (r : DpkgRecord) : Decidable r.LooksInstalled := inferInstanceAs (Decidable (_ ∧ _))

end DpkgRecord

/-! ## apt-cache -/

/-- A package that `apt-cache search` shows. -/
structure AptRecord where
  name : List Char
  summary : List Char
  installed : Bool
  name_isWord : IsWord name
  newline_notMem : '\n' ∉ summary

/-- The line of a package: `name - summary`. -/
def AptRecord.line (r : AptRecord) : List Char := r.name ++ ' ' :: '-' :: ' ' :: r.summary

/-! ## dnf -/

/-- A package that `dnf list` shows, with the blanks between its columns. -/
structure DnfRecord where
  name : List Char
  arch : List Char
  version : List Char
  repo : List Char
  gap : Nat
  gap' : Nat
  name_isWord : IsWord name
  arch_isWord : IsWord arch
  version_isWord : IsWord version
  repo_isWord : IsWord repo
  dot_notMem : '.' ∉ arch
  repo_head : repo.head? ≠ some '@'

/-- The line of a package: `name.arch`, version and repository, which an at sign marks when the
package is installed. -/
def DnfRecord.line (installed : Bool) (r : DnfRecord) : List Char :=
  (r.name ++ '.' :: r.arch) ++ ' ' :: (List.replicate r.gap ' ' ++ (r.version ++ ' ' ::
    (List.replicate r.gap' ' ' ++ (if installed then '@' :: r.repo else r.repo))))

/-- What `dnf list` shows. -/
structure DnfListing where
  installed : List DnfRecord
  available : List DnfRecord

/-- Lines under their header, which is left out when there are none. -/
def underHeader (header : String) (ls : List (List Char)) : List (List Char) :=
  if ls.isEmpty then [] else header.toList :: ls

def DnfListing.lines (l : DnfListing) : List (List Char) :=
  underHeader "Installed Packages" (l.installed.map (DnfRecord.line true)) ++
    underHeader "Available Packages" (l.available.map (DnfRecord.line false))

/-! ## pacman -/

/-- A package that `pacman -Q` shows. -/
structure PacmanRecord where
  name : List Char
  version : List Char
  name_isWord : IsWord name
  version_isWord : IsWord version

/-- The line of a package: `name version`. -/
def PacmanRecord.line (r : PacmanRecord) : List Char := r.name ++ ' ' :: r.version

/-- A package that `pacman -Ss` shows. -/
structure SearchRecord where
  repo : List Char
  name : List Char
  version : List Char
  description : List Char
  installed : Bool
  repo_isWord : IsWord repo
  name_isWord : IsWord name
  version_isWord : IsWord version
  newline_notMem : '\n' ∉ description

/-- The lines of a package: `repo/name version`, with a mark when it is installed, and its
description, indented. -/
def SearchRecord.lines (r : SearchRecord) : List (List Char) :=
  [(r.repo ++ '/' :: r.name) ++ ' ' ::
      (r.version ++ if r.installed then " [installed]".toList else []),
    "    ".toList ++ r.description]

/-! ## apk -/

/-- A dash that a digit comes after. -/
def HasDashDigit (name : List Char) : Prop :=
  ∃ a d b, name = a ++ '-' :: d :: b ∧ d.isDigit = true

/-- A package that `apk list` shows. -/
structure ApkRecord where
  name : List Char
  version : List Char
  arch : List Char
  origin : List Char
  license : List Char
  installed : Bool
  name_isWord : IsWord name
  version_isWord : IsWord version
  arch_isWord : IsWord arch
  not_hasDashDigit : ¬ HasDashDigit name
  version_head : ∃ d rest, version = d :: rest ∧ d.isDigit = true
  origin_newline_notMem : '\n' ∉ origin
  license_newline_notMem : '\n' ∉ license

/-- What is shown of every package: `name-version arch {origin} (license)`. -/
def ApkRecord.text (r : ApkRecord) : List Char :=
  (r.name ++ '-' :: r.version) ++ ' ' :: (r.arch ++ ' ' :: '{' :: (r.origin ++ '}' :: ' ' :: '(' ::
    (r.license ++ [')'])))

/-- The line of a package, with a mark when it is installed. -/
def ApkRecord.line (r : ApkRecord) : List Char :=
  r.text ++ if r.installed then " [installed]".toList else []

/-! ## Commands and formats -/

/-- The formats of the commands. -/
inductive Format where
  | dpkgQuery (format : List Char)
  | aptSearch
  | dnfList
  | pacmanQuery
  | pacmanSearch
  | apkList
deriving DecidableEq

/-- The format in which a command prints, by its arguments. -/
def formatOf : List String → Option Format
  | [] => none
  | program :: args =>
      if program = "/usr/bin/dpkg-query" then
        (args.find? fun a ↦ "-f=".toList.isPrefixOf a.toList).map
          fun a ↦ .dpkgQuery (a.toList.drop 3)
      else if program = "/usr/bin/apt-cache" then some .aptSearch
      else if program = "/usr/bin/dnf" then some .dnfList
      else if program = "/usr/bin/pacman" then
        if args.head? = some "-Q" then some .pacmanQuery
        else if args.head? = some "-Ss" then some .pacmanSearch
        else none
      else if program = "/sbin/apk" then some .apkList
      else none

/-- What a command shows. -/
inductive Listing : Format → Type where
  | dpkgQuery {format : List Char} (rs : List DpkgRecord) : Listing (.dpkgQuery format)
  | aptSearch (rs : List AptRecord) : Listing .aptSearch
  | dnfList (l : DnfListing) : Listing .dnfList
  | pacmanQuery (rs : List PacmanRecord) : Listing .pacmanQuery
  | pacmanSearch (rs : List SearchRecord) : Listing .pacmanSearch
  | apkList (rs : List ApkRecord) : Listing .apkList

/-- A name that the parser of `dnf list` takes for a header. -/
def LooksLikeHeader (name : List Char) : Prop :=
  "Installed".toList <+: name ∨ "Available".toList <+: name

instance (name : List Char) : Decidable (LooksLikeHeader name) :=
  inferInstanceAs (Decidable (_ ∨ _))

namespace Listing

/-- What the command prints. -/
def print {f : Format} : Listing f → List Char
  | @dpkgQuery format rs => dpkgOutput format rs
  | aptSearch rs => unlines (rs.map AptRecord.line)
  | dnfList l => unlines l.lines
  | pacmanQuery rs => unlines (rs.map PacmanRecord.line)
  | pacmanSearch rs => unlines (rs.flatMap SearchRecord.lines)
  | apkList rs => unlines (rs.map ApkRecord.line)

/-- The names of the packages that are shown, and whether they are installed. -/
def packages {f : Format} : Listing f → List (String × Bool)
  | dpkgQuery rs => rs.map fun r ↦ (String.ofList r.name, decide (r.state = "installed".toList))
  | aptSearch rs => rs.map fun r ↦ (String.ofList r.name, r.installed)
  | dnfList l =>
      l.installed.map (fun r ↦ (String.ofList r.name, true)) ++
        l.available.map fun r ↦ (String.ofList r.name, false)
  | pacmanQuery rs => rs.map fun r ↦ (String.ofList r.name, true)
  | pacmanSearch rs => rs.map fun r ↦ (String.ofList r.name, r.installed)
  | apkList rs => rs.map fun r ↦ (String.ofList r.name, r.installed)

/-- What the parser that reads it finds is what it shows. -/
def Readable {f : Format} : Listing f → Prop
  | dpkgQuery rs => ∀ r ∈ rs, r.state = "installed".toList ↔ r.LooksInstalled
  | aptSearch rs => rs = []
  | dnfList l => ∀ r ∈ l.installed ++ l.available, ¬ LooksLikeHeader r.name
  | pacmanQuery _ => True
  | pacmanSearch rs => rs = []
  | apkList rs => ∀ r ∈ rs, r.installed = false → ¬ "[installed]".toList <:+: r.text

end Listing

/-- The name of a package and whether it is installed. -/
def PackageInfo.key (p : PackageInfo) : String × Bool := (p.name, p.installed)

theorem formatOf_buildListArgv (kind : PackageKind) (query : Option String) (installedOnly : Bool) :
    formatOf (buildListArgv kind query installedOnly) = some
      (match kind with
        | .apt => if installedOnly || query.isNone then .dpkgQuery dpkgFormat else .aptSearch
        | .dnf => .dnfList
        | .pacman => if installedOnly then .pacmanQuery else .pacmanSearch
        | .apk => .apkList) := by
  cases kind with
  | apt => cases query <;> cases installedOnly <;> rfl
  | dnf => rfl
  | pacman => cases installedOnly <;> rfl
  | apk => rfl

end Vaiexia.Backend
