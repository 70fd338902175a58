import Vaiexia.Privd.Socket

/-!
# What a package name asks of apt-get

The helper hands a package name to apt-get as the operand after `--`, which keeps it from being an
option.  It does not keep it from being a request of its own: of apt-get it is assumed (`AptGet`)
that an operand which is no package, but ends in `-` or `+`, asks for the removal or the
installation of what is in front.  What any other operand that is no package asks for is left open,
since apt-get may take it for a pattern.  `asks_iff` says when the command is about the package that
it names.
-/

namespace Vaiexia.Privd

/-! ## Assumptions -/

/-- What apt-get does with a package. -/
inductive AptVerb where
  | install | remove
deriving DecidableEq, Repr

/-- The word for it on a command line. -/
def AptVerb.word : AptVerb → String
  | .install => "install"
  | .remove => "remove"

/-- The last character of an operand that is a request of its own. -/
def AptVerb.ofSuffix : Char → Option AptVerb
  | '-' => some .remove
  | '+' => some .install
  | _ => none

/-- The operand ends in such a character. -/
def Suffixed (operand : String) : Prop := ∃ c ∈ operand.toList.getLast?, c = '-' ∨ c = '+'

theorem AptVerb.ofSuffix_isSome {c : Char} : (ofSuffix c).isSome ↔ c = '-' ∨ c = '+' := by
  unfold ofSuffix
  split
  · simp
  · simp
  · rename_i hminus hplus
    exact iff_of_false nofun (not_or.mpr ⟨hminus, hplus⟩)

/-- The options that the helper gives, which take no argument. -/
def aptFlags : List String := ["-y", "--no-install-recommends"]

/-- A command line with one operand, after the separator of options. -/
def aptLine (verb : AptVerb) (options : List String) (operand : String) : List String :=
  "/usr/bin/apt-get" :: verb.word :: (options ++ ["--", operand])

/-- What is assumed of apt-get: which names are packages, what a command line asks for, and what its
operand asks for.  An operand that is no package and has no suffix may ask for anything. -/
structure AptGet where
  known : String → Bool
  asks : List String → List (AptVerb × String)
  reads : AptVerb → String → List (AptVerb × String)
  asks_line (verb : AptVerb) {options : List String} (operand : String)
    (hoptions : options ⊆ aptFlags) : asks (aptLine verb options operand) = reads verb operand
  reads_known (verb : AptVerb) {operand : String} (h : known operand = true) :
    reads verb operand = [(verb, operand)]
  reads_suffixed (verb : AptVerb) {base : List Char} {c : Char} {own : AptVerb}
    (h : known (String.ofList (base ++ [c])) = false) (hc : AptVerb.ofSuffix c = some own) :
    reads verb (String.ofList (base ++ [c])) = [(own, String.ofList base)]

/-- What follows the options: the words up to `--` that do not start with a dash, and all after. -/
def operands : List String → List String
  | [] => []
  | arg :: args =>
      if arg = "--" then args
      else if arg.toList.head? = some '-' then operands args
      else arg :: operands args

/-- What one operand asks for, where the other operands that are no packages ask for `patterns`. -/
def AptVerb.ofOperand (known : String → Bool)
    (patterns : AptVerb → String → List (AptVerb × String)) (verb : AptVerb)
    (operand : String) : List (AptVerb × String) :=
  if known operand then [(verb, operand)]
  else
    match operand.toList.getLast?.bind AptVerb.ofSuffix with
    | some own => [(own, String.ofList operand.toList.dropLast)]
    | none => patterns verb operand

/-- What a verb and its operands ask for. -/
def AptVerb.ofWords (reads : AptVerb → String → List (AptVerb × String)) :
    List String → List (AptVerb × String)
  | "install" :: names => names.flatMap (reads .install)
  | "remove" :: names => names.flatMap (reads .remove)
  | _ => []

theorem operands_flags {options : List String} (h : options ⊆ aptFlags) (operand : String) :
    operands (options ++ ["--", operand]) = [operand] := by
  induction options with
  | nil => rfl
  | cons option options ih =>
      obtain ⟨hoption, hoptions⟩ := List.cons_subset.mp h
      have hdash : option ≠ "--" ∧ option.toList.head? = some '-' := by
        simp only [aptFlags, List.mem_cons, List.not_mem_nil, or_false] at hoption
        rcases hoption with rfl | rfl <;> decide
      rw [List.cons_append, operands, if_neg hdash.1, if_pos hdash.2]
      exact ih hoptions

theorem operands_aptLine {options : List String} (h : options ⊆ aptFlags)
    (reads : AptVerb → String → List (AptVerb × String)) (verb : AptVerb) (operand : String) :
    AptVerb.ofWords reads (operands (aptLine verb options operand).tail) = reads verb operand := by
  have hword : operands (aptLine verb options operand).tail = [verb.word, operand] := by
    rw [← operands_flags h operand]
    cases verb <;> rfl
  rw [hword]
  cases verb <;> exact List.append_nil _

/-- An apt-get that reads its arguments so. -/
def AptGet.ofKnown (known : String → Bool)
    (patterns : AptVerb → String → List (AptVerb × String)) : AptGet where
  known := known
  asks argv := AptVerb.ofWords (AptVerb.ofOperand known patterns) (operands argv.tail)
  reads := AptVerb.ofOperand known patterns
  asks_line verb _ operand hoptions := operands_aptLine hoptions _ verb operand
  reads_known verb operand h := by rw [AptVerb.ofOperand, if_pos h]
  reads_suffixed verb base c own h hc := by
    rw [AptVerb.ofOperand, h]
    simp [hc]

/-- A dot of an operand stands for any character. -/
def dotMatches (operand name : String) : Bool :=
  operand.length = name.length &&
    (operand.toList.zip name.toList).all fun cs ↦ cs.1 = '.' || cs.1 = cs.2

/-- What an operand that is no package asks for on a host with these packages: those that it
matches, or what it says where it matches none. -/
def patternsOf (packages : List String) (verb : AptVerb) (operand : String) :
    List (AptVerb × String) :=
  match packages.filter (dotMatches operand) with
  | [] => [(verb, operand)]
  | found => found.map (verb, ·)

/-! ## The helper's commands -/

/-- The request to do it. -/
def AptVerb.request (name : PackageName) : AptVerb → PrivRequest
  | .install => .pkgInstall name
  | .remove => .pkgRemove name

/-- The options of the helper's command. -/
def AptVerb.options : AptVerb → List String
  | .install => ["-y", "--no-install-recommends"]
  | .remove => ["-y"]

theorem AptVerb.options_subset (verb : AptVerb) : verb.options ⊆ aptFlags := by
  cases verb <;> decide

/-- A request that is carried out has the name as the operand. -/
theorem exec_aptLine {verb : AptVerb} {name : PackageName} {busy : Bool} {al : Allowlist}
    {argv : List String} (h : dispatch (verb.request name) .apt busy al = .exec argv) :
    argv = aptLine verb verb.options name.text := by
  have hargv := (dispatch_exec h).1
  cases verb <;>
    · simp only [AptVerb.request, verbToArgv, PackageName.parse_text] at hargv
      exact (Option.some.inj hargv).symm

/-- **When the command is about the package that it names.**  For every apt-get as assumed, every
package name, allowlist and verb: a command that the helper runs for the request asks for exactly
the verb on exactly the name, if and only if there is a package of this name, or the name ends in
neither `-` nor `+` and apt-get takes an operand that is no package for what it says. -/
theorem asks_iff (apt : AptGet) {verb : AptVerb} {name : PackageName} {busy : Bool} {al : Allowlist}
    {argv : List String} (h : dispatch (verb.request name) .apt busy al = .exec argv) :
    apt.asks argv = [(verb, name.text)] ↔
      apt.known name.text = true ∨
        ¬ Suffixed name.text ∧ apt.reads verb name.text = [(verb, name.text)] := by
  obtain rfl := exec_aptLine h
  rw [apt.asks_line verb name.text verb.options_subset]
  constructor
  · intro hreads
    by_contra hno
    obtain ⟨hknown, hliteral⟩ := not_or.mp hno
    have hsuffixed : Suffixed name.text := by
      by_contra hnone
      exact hliteral ⟨hnone, hreads⟩
    obtain ⟨c, hlast, hc⟩ := hsuffixed
    obtain ⟨own, hown⟩ := Option.isSome_iff_exists.mp (AptVerb.ofSuffix_isSome.mpr hc)
    obtain ⟨base, hbase⟩ := List.getLast?_eq_some_iff.mp hlast
    -- the operand loses its last character, so it is another name
    have hname : name.text = String.ofList (base ++ [c]) := by
      rw [← hbase, String.ofList_toList]
    rw [hname, apt.reads_suffixed verb ((Bool.not_eq_true _).mp (hname ▸ hknown)) hown] at hreads
    obtain ⟨-, hlost⟩ : own = verb ∧ String.ofList base = String.ofList (base ++ [c]) := by
      simpa only [List.cons.injEq, Prod.mk.injEq, and_true] using hreads
    exact absurd (String.ofList_injective hlost) (by simp)
  · rintro (hknown | ⟨-, hliteral⟩)
    · exact apt.reads_known verb hknown
    · exact hliteral

/-- A host with two packages. -/
def sshHost : AptGet :=
  .ofKnown (fun name ↦ ["nginx", "libssh-4"].contains name) (patternsOf ["nginx", "libssh-4"])

/-- There, without an allowlist, to install `nginx` is what it says, and to remove `libssh.4` is
not: that is a pattern for `libssh-4`. -/
theorem asks_iff_nginx :
    sshHost.asks ["/usr/bin/apt-get", "install", "-y", "--no-install-recommends", "--", "nginx"] =
      [(.install, "nginx")] ∧
    sshHost.asks ["/usr/bin/apt-get", "remove", "-y", "--", "libssh.4"] ≠
      [(.remove, "libssh.4")] := by
  constructor
  · have h := @asks_iff sshHost .install ⟨"nginx", by decide⟩ false .permissive
      ["/usr/bin/apt-get", "install", "-y", "--no-install-recommends", "--", "nginx"] (by decide)
    exact h.mpr (.inl (by decide))
  · intro hasks
    have h := @asks_iff sshHost .remove ⟨"libssh.4", by decide⟩ false .permissive
      ["/usr/bin/apt-get", "remove", "-y", "--", "libssh.4"] (by decide)
    rcases h.mp hasks with hknown | ⟨-, hliteral⟩
    · revert hknown
      decide
    · revert hliteral
      decide

/-- There, to install `nginx-` is to remove `nginx`. -/
theorem not_forall_asks :
    ¬ ∀ (apt : AptGet) (verb : AptVerb) (name : PackageName) (busy : Bool) (al : Allowlist)
      (argv : List String), dispatch (verb.request name) .apt busy al = .exec argv →
        apt.asks argv = [(verb, name.text)] := by
  intro h
  have hasks := h sshHost .install ⟨"nginx-", by decide⟩ false .permissive
    ["/usr/bin/apt-get", "install", "-y", "--no-install-recommends", "--", "nginx-"] (by decide)
  revert hasks
  decide

end Vaiexia.Privd
