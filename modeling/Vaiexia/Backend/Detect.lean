import Vaiexia.Backend.ListParse
import Vaiexia.Privd.Socket

/-!
# Which package manager it is

`from_os_release`, `binary_path` and `confirm` of
`crates/vaiexia-server/src/backend/packages/detect.rs`, `probe_packages` of `backend/assemble.rs`,
and `detect_package_kind` of `crates/vaiexia-privd/src/main.rs`.  The daemon and its helper read
`/etc/os-release` each for itself.

`os_release_read` says that a file of assignments is read as what it assigns, by both, so they work
with one package manager: what the helper starts is the binary that the daemon saw.
-/

namespace Vaiexia.Backend

open Vaiexia.Lib Text

/-! ## Reading -/

/-- `strip_prefix`. -/
def stripPrefix (p cs : List Char) : Option (List Char) :=
  if p.isPrefixOf cs then some (cs.drop p.length) else none

/-- `trim_matches('"')`. -/
def trimQuotes (cs : List Char) : List Char :=
  ((cs.dropWhile (· == '"')).reverse.dropWhile (· == '"')).reverse

/-- The fields that are looked for. -/
structure OsFields where
  id : Option (List Char)
  idLike : Option (List Char)

/-- One line. -/
def OsFields.readLine (fields : OsFields) (line : List Char) : OsFields :=
  match stripPrefix "ID=".toList (trim line) with
  | some val => { fields with id := some (trimQuotes val) }
  | none =>
      match stripPrefix "ID_LIKE=".toList (trim line) with
      | some val => { fields with idLike := some (trimQuotes val) }
      | none => fields

/-- The kind for the fields: that of the `ID`, or else the first one in `ID_LIKE`. -/
def OsFields.kind {κ : Type} (kindOf : String → Option κ) (fields : OsFields) : Option κ :=
  match fields.id.bind fun id ↦ kindOf (.ofList id) with
  | some kind => some kind
  | none =>
      match fields.idLike with
      | some like => (splitWhitespace like).findSome? fun token ↦ kindOf (.ofList token)
      | none => none

/-- The reading that both sides do, each with a table of its own. -/
def readOsRelease {κ : Type} (kindOf : String → Option κ) (content : String) : Option κ :=
  ((lines content.toList).foldl OsFields.readLine ⟨none, none⟩).kind kindOf

/-- `kind_from_id`. -/
def kindFromId : String → Option PackageKind
  | "debian" | "ubuntu" | "raspbian" | "linuxmint" | "pop" => some .apt
  | "fedora" | "rhel" | "centos" | "rocky" | "almalinux" => some .dnf
  | "arch" | "manjaro" | "endeavouros" | "artix" => some .pacman
  | "alpine" => some .apk
  | _ => none

/-- `from_os_release`. -/
def fromOsRelease (content : String) : Option PackageKind := readOsRelease kindFromId content

/-- `binary_path`. -/
def binaryPath : PackageKind → String
  | .apt => "/usr/bin/apt-get"
  | .dnf => "/usr/bin/dnf"
  | .pacman => "/usr/bin/pacman"
  | .apk => "/sbin/apk"

/-- `confirm`. -/
def confirm (kind : PackageKind) (pathExists : String → Bool) : Bool := pathExists (binaryPath kind)

/-- `probe_packages`, up to the manager that is made for the kind. -/
def probePackages (content : Option String) (pathExists : String → Bool) : Option PackageKind := do
  let kind ← fromOsRelease (← content)
  if !confirm kind pathExists then none
  else if !pathExists "/run/vaiexia/privd.sock" then none
  else some kind

end Vaiexia.Backend

namespace Vaiexia.Privd

open Vaiexia.Backend (readOsRelease)

/-- `kind_from_id_str`. -/
def kindFromIdStr : String → Option PackageKind
  | "debian" | "ubuntu" | "raspbian" | "linuxmint" | "pop" => some .apt
  | "fedora" | "rhel" | "centos" | "rocky" | "almalinux" => some .dnf
  | "arch" | "manjaro" | "endeavouros" | "artix" => some .pacman
  | "alpine" => some .apk
  | _ => none

/-- `detect_from_os_release_text`. -/
def detectFromOsReleaseText (content : String) : Option PackageKind :=
  readOsRelease kindFromIdStr content

/-- `detect_package_kind`. -/
def detectPackageKind (content : Option String) : PackageKind :=
  (detectFromOsReleaseText (content.getD "")).getD .apt

end Vaiexia.Privd

namespace Vaiexia.Backend

open Vaiexia.Lib Text

/-! ## Files -/

/-- The characters of a name of a variable. -/
def isVariableChar (c : Char) : Bool := c.isAlphanum || c == '_'

/-- A line of `os-release`: an assignment, whose value may be in double quotes, or a comment or
blank line. -/
inductive OsLine where
  | assignment (key value : List Char) (quoted : Bool)
  | other (text : List Char)

namespace OsLine

/-- The line is as it should be. -/
inductive Ok : OsLine → Prop
  | bare {key value : List Char} (hkey : ∀ c ∈ key, isVariableChar c = true) (hne : key ≠ [])
      (hvalue : ∀ c ∈ value, isWhitespace c = false) (hquotes : '"' ∉ value) :
      Ok (assignment key value false)
  | quoted {key value : List Char} (hkey : ∀ c ∈ key, isVariableChar c = true) (hne : key ≠ [])
      (hvalue : '\n' ∉ value) (hquotes : '"' ∉ value) : Ok (assignment key value true)
  | comment {text : List Char} (htext : '\n' ∉ text) : Ok (other ('#' :: text))
  | blank : Ok (other [])

/-- The text of a line. -/
def text : OsLine → List Char
  | assignment key value false => key ++ '=' :: value
  | assignment key value true => key ++ '=' :: '"' :: (value ++ ['"'])
  | other text => text

/-- The value of a variable after a line, with the one before it. -/
def assigns (key : List Char) (value : Option (List Char)) : OsLine → Option (List Char)
  | assignment key' value' _ => if key' = key then some value' else value
  | other _ => value

end OsLine

/-- The text of a file. -/
def osRelease (file : List OsLine) : String := .ofList (unlines (file.map OsLine.text))

/-- The value of a variable: the last one that is assigned. -/
def osValue (file : List OsLine) (key : String) : Option (List Char) :=
  file.foldl (OsLine.assigns key.toList) none

/-- What a file says. -/
def osFields (file : List OsLine) : OsFields := ⟨osValue file "ID", osValue file "ID_LIKE"⟩

/-- The distributions that a file names: the one that it is, then the ones that it is like. -/
def osIds (file : List OsLine) : List (List Char) :=
  (osValue file "ID").toList ++ (osValue file "ID_LIKE").elim [] splitWhitespace

/-- The same kind, for the helper. -/
def PackageKind.toPrivd : PackageKind → Privd.PackageKind
  | .apt => .apt
  | .dnf => .dnf
  | .pacman => .pacman
  | .apk => .apk

/-! ## Lines are read back -/

theorem trim_eq_self {cs : List Char} (hfirst : ∀ c ∈ cs.head?, isWhitespace c = false)
    (hlast : ∀ c ∈ cs.getLast?, isWhitespace c = false) : trim cs = cs := by
  have hdrop : cs.dropWhile isWhitespace = cs := by
    cases cs with
    | nil => rfl
    | cons c cs => exact List.dropWhile_cons_of_neg (by rw [hfirst c rfl]; exact Bool.false_ne_true)
  rw [trim_eq, hdrop, trimEnd_eq_self hlast]

theorem isWhitespace_of_isVariableChar {c : Char} (h : isVariableChar c = true) :
    isWhitespace c = false := by
  refine isWhitespace_of_isApkNameChar ?_
  rw [isVariableChar, Bool.or_eq_true] at h
  rcases h with h | h
  · simp [isApkNameChar, h]
  · simp [isApkNameChar, eq_of_beq h]

theorem dropWhile_quotes {cs : List Char} (h : '"' ∉ cs) : cs.dropWhile (· == '"') = cs := by
  cases cs with
  | nil => rfl
  | cons c cs =>
      have hc : c ≠ '"' := fun heq ↦ h (heq ▸ List.mem_cons_self)
      exact List.dropWhile_cons_of_neg fun heq ↦ hc (eq_of_beq heq)

theorem trimQuotes_eq_self {cs : List Char} (h : '"' ∉ cs) : trimQuotes cs = cs := by
  rw [trimQuotes, dropWhile_quotes h, dropWhile_quotes fun hmem ↦ h (List.mem_reverse.mp hmem),
    List.reverse_reverse]

theorem trimQuotes_quoted {cs : List Char} (h : '"' ∉ cs) :
    trimQuotes ('"' :: (cs ++ ['"'])) = cs := by
  have hback : '"' ∉ cs.reverse := fun hmem ↦ h (List.mem_reverse.mp hmem)
  rw [trimQuotes, List.dropWhile_cons_of_pos rfl]
  cases cs with
  | nil => rfl
  | cons c cs =>
      have hc : c ≠ '"' := fun heq ↦ h (heq ▸ List.mem_cons_self)
      have hfront : List.dropWhile (· == '"') (c :: (cs ++ ['"'])) = c :: cs ++ ['"'] :=
        List.dropWhile_cons_of_neg fun heq ↦ hc (eq_of_beq heq)
      rw [List.cons_append, hfront, List.reverse_append, List.reverse_singleton,
        List.singleton_append, List.dropWhile_cons_of_pos rfl, dropWhile_quotes hback,
        List.reverse_reverse]

/-- The name in front of the first equals sign. -/
theorem stripPrefix_assignment {key name : List Char} (hkey : '=' ∉ key) (hname : '=' ∉ name)
    (rest : List Char) :
    stripPrefix (name ++ ['=']) (key ++ '=' :: rest) = if key = name then some rest else none := by
  unfold stripPrefix
  by_cases heq : key = name
  · subst heq
    have hprefix : (key ++ ['=']).isPrefixOf (key ++ '=' :: rest) = true :=
      List.isPrefixOf_iff_prefix.mpr ⟨rest, by rw [List.append_assoc]; rfl⟩
    rw [if_pos hprefix, if_pos rfl, List.append_cons key '=' rest, List.drop_left]
  · have hnot : ¬ (name ++ ['=']).isPrefixOf (key ++ '=' :: rest) = true := by
      intro hprefix
      obtain ⟨more, hmore⟩ := List.isPrefixOf_iff_prefix.mp hprefix
      rw [List.append_assoc] at hmore
      exact heq (append_sep_inj hname hkey hmore).1.symm
    rw [if_neg hnot, if_neg heq]

/-- A name of a variable has no equals sign. -/
theorem equals_notMem {key : List Char} (h : ∀ c ∈ key, isVariableChar c = true) : '=' ∉ key := by
  intro hmem
  have hchar := h '=' hmem
  revert hchar
  decide

/-- A name begins its line. -/
theorem head_assignment {key rest : List Char} (h : ∀ c ∈ key, isVariableChar c = true)
    (hne : key ≠ []) : ∀ c ∈ (key ++ rest).head?, isWhitespace c = false := by
  cases key with
  | nil => exact absurd rfl hne
  | cons k key =>
      intro c hc
      obtain rfl := Option.some.inj hc
      exact isWhitespace_of_isVariableChar (h k List.mem_cons_self)

/-- **A line is read back**: as the assignment that it is, if it is one that is looked for. -/
theorem readLine_text {l : OsLine} (h : l.Ok) (fields : OsFields) :
    fields.readLine (stripCr l.text) =
      ⟨l.assigns "ID".toList fields.id, l.assigns "ID_LIKE".toList fields.idLike⟩ := by
  have hid : "ID=".toList = "ID".toList ++ ['='] := by decide
  have hidLike : "ID_LIKE=".toList = "ID_LIKE".toList ++ ['='] := by decide
  have hne : "ID_LIKE".toList ≠ "ID".toList := by decide
  have hread {key rest value : List Char} (quoted : Bool)
      (hkey : ∀ c ∈ key, isVariableChar c = true)
      (htrim : trim (key ++ '=' :: rest) = key ++ '=' :: rest) (hquotes : trimQuotes rest = value) :
      fields.readLine (stripCr (key ++ '=' :: rest)) =
        ⟨(OsLine.assignment key value quoted).assigns "ID".toList fields.id,
          (OsLine.assignment key value quoted).assigns "ID_LIKE".toList fields.idLike⟩ := by
    unfold OsFields.readLine OsLine.assigns
    rw [trim_stripCr, htrim, hid, hidLike,
      stripPrefix_assignment (equals_notMem hkey) (by decide),
      stripPrefix_assignment (equals_notMem hkey) (by decide)]
    dsimp only
    by_cases heq : key = "ID".toList
    · rw [if_pos heq, if_pos heq]
      dsimp only
      rw [hquotes, if_neg fun hlike ↦ hne (hlike.symm.trans heq)]
    · rw [if_neg heq, if_neg heq]
      dsimp only
      by_cases hlike : key = "ID_LIKE".toList
      · rw [if_pos hlike, if_pos hlike]
        dsimp only
        rw [hquotes]
      · rw [if_neg hlike, if_neg hlike]
  cases h with
  | @bare key value hkey hne hvalue hquotes =>
      refine hread false hkey (trim_eq_self (head_assignment hkey hne) fun c hc ↦ ?_)
        (trimQuotes_eq_self hquotes)
      rw [List.getLast?_append_of_ne_nil _ (List.cons_ne_nil _ _)] at hc
      rcases List.mem_cons.mp (List.mem_of_getLast? hc) with rfl | hmem
      · decide
      · exact hvalue c hmem
  | @quoted key value hkey hne hvalue hquotes =>
      refine hread true hkey (trim_eq_self (head_assignment hkey hne) fun c hc ↦ ?_)
        (trimQuotes_quoted hquotes)
      rw [← List.cons_append, ← List.cons_append, ← List.append_assoc, List.getLast?_concat] at hc
      obtain rfl := Option.some.inj hc
      decide
  | @comment text htext =>
      have htrim : trim ('#' :: text) = '#' :: trimEnd text :=
        trimEnd_append_cons (show isWhitespace '#' = false by decide) [] text
      unfold OsFields.readLine
      rw [trim_stripCr, OsLine.text, htrim]
      rfl
  | blank => rfl

/-- A line has no end of line in it. -/
theorem OsLine.Ok.newline_notMem {l : OsLine} (h : l.Ok) : '\n' ∉ l.text := by
  have hnewline : isWhitespace '\n' = true := by decide
  have hkey {key : List Char} (h : ∀ c ∈ key, isVariableChar c = true) : '\n' ∉ key := by
    intro hmem
    have hchar := h '\n' hmem
    revert hchar
    decide
  cases h with
  | bare hchars _ hvalue _ =>
      have hmem := mt (hvalue '\n') (by rw [hnewline]; decide)
      simp [OsLine.text, hkey hchars, hmem]
  | quoted hchars _ hvalue _ => simp [OsLine.text, hkey hchars, hvalue]
  | comment htext => simp [OsLine.text, htext]
  | blank => simp [OsLine.text]

/-- **A file is read** as what it says. -/
theorem readOsRelease_osRelease {κ : Type} (kindOf : String → Option κ) {file : List OsLine}
    (h : ∀ l ∈ file, l.Ok) :
    readOsRelease kindOf (osRelease file) = (osFields file).kind kindOf := by
  have hfold : ∀ fields : OsFields,
      ((file.map OsLine.text).map stripCr).foldl OsFields.readLine fields =
        ⟨file.foldl (OsLine.assigns "ID".toList) fields.id,
          file.foldl (OsLine.assigns "ID_LIKE".toList) fields.idLike⟩ := by
    induction file with
    | nil => exact fun _ ↦ rfl
    | cons l file ih =>
        intro fields
        rw [List.map_cons, List.map_cons, List.foldl_cons, readLine_text (h l List.mem_cons_self),
          ih fun l' hl' ↦ h l' (List.mem_cons_of_mem l hl')]
        rfl
  have hlines : ∀ l ∈ file.map OsLine.text, '\n' ∉ l := by
    intro l hl
    obtain ⟨l', hl', rfl⟩ := List.mem_map.mp hl
    exact (h l' hl').newline_notMem
  rw [readOsRelease, osRelease, String.toList_ofList, lines_unlines_map hlines, hfold]
  rfl

/-- The kind is that of the first distribution that is known. -/
theorem kind_osFields {κ : Type} (kindOf : String → Option κ) (file : List OsLine) :
    (osFields file).kind kindOf = (osIds file).findSome? fun id ↦ kindOf (.ofList id) := by
  unfold OsFields.kind osIds osFields
  rw [List.findSome?_append]
  cases osValue file "ID" with
  | none => cases osValue file "ID_LIKE" <;> rfl
  | some id =>
      rw [Option.bind_some, Option.toList_some, List.findSome?_singleton]
      cases kindOf (.ofList id) with
      | some kind => rfl
      | none => cases osValue file "ID_LIKE" <;> rfl

/-! ## Two readers -/

/-- The helper's table is the daemon's. -/
theorem kindFromIdStr_eq (id : String) :
    Privd.kindFromIdStr id = (kindFromId id).map PackageKind.toPrivd := by
  unfold Privd.kindFromIdStr kindFromId
  split <;> rfl

/-- With a table in another's terms, the fields are read in those terms. -/
theorem kind_map {κ κ' : Type} (f : κ → κ') (kindOf : String → Option κ) (fields : OsFields) :
    (fields.kind fun id ↦ (kindOf id).map f) = (fields.kind kindOf).map f := by
  have hlike : ∀ tokens : List (List Char),
      (tokens.findSome? fun token ↦ (kindOf (.ofList token)).map f) =
        (tokens.findSome? fun token ↦ kindOf (.ofList token)).map f := by
    intro tokens
    induction tokens with
    | nil => rfl
    | cons token tokens ih =>
        rw [List.findSome?_cons, List.findSome?_cons, ih]
        cases kindOf (.ofList token) <;> rfl
  unfold OsFields.kind
  cases fields.id with
  | none =>
      cases fields.idLike with
      | none => rfl
      | some like => exact hlike _
  | some id =>
      rw [Option.bind_some, Option.bind_some]
      dsimp only
      cases kindOf (.ofList id) with
      | some kind => rfl
      | none =>
          cases fields.idLike with
          | none => rfl
          | some like => exact hlike _

/-- The helper finds what the daemon finds. -/
theorem detectFromOsReleaseText_eq (content : String) :
    Privd.detectFromOsReleaseText content = (fromOsRelease content).map PackageKind.toPrivd := by
  unfold Privd.detectFromOsReleaseText fromOsRelease readOsRelease
  rw [← kind_map]
  exact congrArg (OsFields.kind · _) (funext kindFromIdStr_eq)

/-- Each vector of the helper begins with the binary that the daemon knows. -/
theorem head?_verbToArgv {req : Privd.PrivRequest} {kind : PackageKind} {argv : List String}
    (h : Privd.verbToArgv req kind.toPrivd = some argv) : argv.head? = some (binaryPath kind) := by
  cases req with
  | ping => cases h
  | protoVersion => cases h
  | pkgInstall name =>
      obtain ⟨-, hargv⟩ := Option.ite_none_left_eq_some.mp h
      obtain rfl := Option.some.inj hargv
      cases kind <;> rfl
  | pkgRemove name =>
      obtain ⟨-, hargv⟩ := Option.ite_none_left_eq_some.mp h
      obtain rfl := Option.some.inj hargv
      cases kind <;> rfl
  | pkgRefreshIndex =>
      obtain rfl := Option.some.inj h
      cases kind <;> rfl

/-- Where there is a manager, it was detected, and its binary and the socket exist. -/
theorem probePackages_eq_some {content : Option String} {pathExists : String → Bool}
    {kind : PackageKind} (h : probePackages content pathExists = some kind) :
    content.bind fromOsRelease = some kind ∧ pathExists (binaryPath kind) = true ∧
      pathExists "/run/vaiexia/privd.sock" = true := by
  cases content with
  | none => cases h
  | some content =>
      rw [probePackages, Option.bind_eq_bind, Option.bind_some, Option.bind_eq_bind,
        Option.bind_eq_some_iff] at h
      obtain ⟨kind', hkind, h⟩ := h
      obtain ⟨hconfirm, h⟩ := Option.ite_none_left_eq_some.mp h
      obtain ⟨hsocket, h⟩ := Option.ite_none_left_eq_some.mp h
      obtain rfl := Option.some.inj h
      exact ⟨hkind, by simpa [confirm] using hconfirm, by simpa using hsocket⟩

/-- **One package manager**: a file of assignments is read, by the daemon and by its helper, as the
first distribution that it names and that they know, whatever its lines, quotes and order; and
whatever the file, where the daemon has a manager, every program that its helper starts is the
binary that the daemon saw there. -/
theorem os_release_read {file : List OsLine} (h : ∀ l ∈ file, l.Ok) :
    fromOsRelease (osRelease file) =
        ((osIds file).findSome? fun id ↦ kindFromId (.ofList id)) ∧
      Privd.detectPackageKind (some (osRelease file)) =
        (((osIds file).findSome? fun id ↦ kindFromId (.ofList id)).elim .apt
          PackageKind.toPrivd) ∧
      ∀ (content : Option String) (pathExists : String → Bool) (kind : PackageKind),
        probePackages content pathExists = some kind →
        pathExists (binaryPath kind) = true ∧
          ∀ req argv, Privd.verbToArgv req (Privd.detectPackageKind content) = some argv →
            argv.head? = some (binaryPath kind) := by
  have hread : fromOsRelease (osRelease file) =
      (osIds file).findSome? fun id ↦ kindFromId (.ofList id) :=
    (readOsRelease_osRelease kindFromId h).trans (kind_osFields kindFromId file)
  refine ⟨hread, ?_, ?_⟩
  · rw [Privd.detectPackageKind, Option.getD_some, detectFromOsReleaseText_eq, hread]
    cases (osIds file).findSome? fun id ↦ kindFromId (.ofList id) <;> rfl
  · intro content pathExists kind hprobe
    obtain ⟨hkind, hexists, -⟩ := probePackages_eq_some hprobe
    refine ⟨hexists, fun req argv hargv ↦
      head?_verbToArgv (?_ : Privd.verbToArgv req kind.toPrivd = some argv)⟩
    cases content with
    | none => cases hkind
    | some content =>
        rw [Option.bind_some] at hkind
        rwa [Privd.detectPackageKind, Option.getD_some, detectFromOsReleaseText_eq, hkind] at hargv

/-- A distribution that is known only by what it is like, with its fields quoted. -/
theorem os_release_read_like :
    fromOsRelease (osRelease
        [.other "# made by hand".toList, .assignment "ID_LIKE".toList "suse fedora".toList true,
          .assignment "VERSION_ID".toList "7".toList false, .other [],
          .assignment "ID".toList "own".toList false]) = some .dnf := by
  have hchars {cs : List Char} (hall : cs.all isVariableChar = true) :
      ∀ c ∈ cs, isVariableChar c = true := List.all_eq_true.mp hall
  refine (os_release_read fun l hl ↦ ?_).1.trans (by decide)
  simp only [List.mem_cons, List.not_mem_nil, or_false] at hl
  rcases hl with rfl | rfl | rfl | rfl | rfl
  · exact .comment (show '\n' ∉ " made by hand".toList by decide)
  · exact .quoted (hchars (by decide)) (by decide) (by decide) (by decide)
  · exact .bare (hchars (by decide)) (by decide)
      (fun c hc ↦ isWhitespace_of_isVariableChar (hchars (by decide) c hc)) (by decide)
  · exact .blank
  · exact .bare (hchars (by decide)) (by decide)
      (fun c hc ↦ isWhitespace_of_isVariableChar (hchars (by decide) c hc)) (by decide)

end Vaiexia.Backend
