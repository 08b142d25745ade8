import OnePass.CommandLine.Outcome
import OnePass.Proofs.Token.Listings

/-!
What a command line leaves behind. Either the whole listing goes to one place, the terminal or a
file, or nothing goes anywhere. Nothing in a listing is changed on its way to the terminal, and
showing the log changes neither of these.
-/

namespace OnePass

/-! ### Listings have no control sequences -/

namespace Text

variable {cs : List Char} {c : Char}

theorem not_mem_join {ss : List String} (all : ∀ s ∈ ss, c ∉ s.toList) :
    c ∉ (String.join ss).toList := by
  induction ss with
  | nil => simp [String.join]
  | cons s ss inductionHypothesis =>
    rw [List.forall_mem_cons] at all
    rw [String.join_cons, String.toList_append, List.mem_append, not_or]
    exact ⟨all.1, inductionHypothesis all.2⟩

theorem not_mem_line_feed {s : String} (h : c ∉ s.toList) (other : c ≠ '\n') :
    c ∉ (s ++ "\n").toList := by
  simpa [h] using other

/-- Every control sequence begins with an escape character. -/
theorem plain_of_not_mem (h : '\x1b' ∉ cs) : plain cs = cs := by
  induction cs with
  | nil => rw [plain]
  | cons c cs inductionHypothesis =>
    rw [List.mem_cons, not_or] at h
    rw [plain, if_neg (Ne.symm h.1), inductionHypothesis h.2]

end Text

open Text

theorem Instruction.not_mem_listing (code : List Instruction) : '\x1b' ∉ (listing code).toList := by
  have name (o : Opcode) : '\x1b' ∉ o.name.toList := by
    rcases o with _ | _ | _ | (_ | _ | _ | _) | _ <;> decide
  have operand (n : Int) : '\x1b' ∉ (toString n).toList := not_mem_int n rfl (by decide)
  apply not_mem_join
  rw [List.forall_mem_map]
  intro i _
  refine not_mem_line_feed ?_ (by decide)
  unfold text
  cases i.operand? with
  | none => exact name i.opcode
  | some n =>
    simp only [String.toList_append, List.mem_append, name, operand, or_false, false_or]
    decide

theorem Lexeme.escape_not_mem_spelling {x : Lexeme} (valid : x.isValid = true) :
    '\x1b' ∉ x.spelling := by
  intro member
  cases x with
  | word cs => exact absurd (isAlphanum_of_isValid_word valid _ member) (by decide)
  | numeral ds => exact absurd ((isValid_numeral.mp valid).2 _ member) (by decide)
  | mark c =>
    obtain rfl := List.mem_singleton.mp member
    exact absurd valid (by decide)

theorem Token.not_mem_listing {o : Options} {file source : String} {ts : List Token}
    (tokens : o.tokens file source = .ok ts) : '\x1b' ∉ (listing ts).toList := by
  apply not_mem_join
  rw [List.forall_mem_map]
  intro t member
  refine not_mem_line_feed (not_mem_row (by decide) (by decide) ?_ ?_) (by decide)
  · cases t.kind <;> decide
  · rcases Options.exists_lexeme_of_mem tokens member with ⟨x, formed, accepted, same⟩ | last
    · have spelled := Lexeme.escape_not_mem_spelling (Lexeme.isValid_of_isFormed formed accepted)
      rw [← String.toList_ofList (l := x.spelling)] at spelled
      have value : t.value = x.value := congrArg Token.value same
      rw [value]
      cases x with
      | word cs => exact spelled
      | numeral ds => exact not_mem_int _ rfl (by decide)
      | mark c => exact spelled
    · have value : t.value = .nothing := congrArg Token.value last
      rw [value]
      decide

namespace CommandLine

variable {s source text : String} {disk : Disk} {settings : Settings} {i : Invocation}
  {bytes : ByteArray}

theorem echo_of_not_mem (h : '\x1b' ∉ s.toList) : echo s = s := by
  rw [echo, plain_of_not_mem h, String.ofList_toList]

/-! ### Outcomes -/

/-- An outcome without its messages: the exit code, the text for the terminal, and the file that is
written. -/
def Outcome.result (o : Outcome) : Nat × String × Option (Path × String) :=
  (o.exit.number, o.stdout, o.written)

namespace Invocation

/-- The listing that an invocation asks for. -/
def listing (i : Invocation) (settings : Settings) (source : String) : Except Diagnostic String :=
  let o : Options :=
    if i.legacyStore then { settings.options with storesFirst := false } else settings.options
  let file := (Path.ofString i.input).text
  if i.listsTokens then (o.tokens file source).map Token.listing
  else (o.compile file source).map fun c => Instruction.listing c.code

/-- What a listing becomes. It goes to one place, if that place can be written at all. -/
def placed (i : Invocation) (disk : Disk) (text : String) : Nat × String × Option (Path × String) :=
  match i.output with
  | none => (0, text, none)
  | some output =>
    match disk.obstacle? (.ofString output) with
    | none => (0, "", some (.ofString output, text))
    | some (.missing _) | some (.forbidden _) => (2, "", none)
    | some _ => (3, "", none)

/-- What an invocation is to leave behind. -/
def expected (i : Invocation) (disk : Disk) (settings : Settings) :
    Nat × String × Option (Path × String) :=
  match disk.read (.ofString i.input) with
  | .error (.missing _) | .error (.forbidden _) => (2, "", none)
  | .error _ => (3, "", none)
  | .ok bytes =>
    match Disk.textOf bytes with
    | .error _ => (3, "", none)
    | .ok source =>
      match i.listing settings source with
      | .error d => (if d.cause.isInternal then 3 else 1, "", none)
      | .ok text => i.placed disk text

theorem options_eq (i : Invocation) (settings : Settings) :
    i.options settings =
      if i.legacyStore then { settings.options with storesFirst := false }
      else settings.options := by
  unfold options
  cases i.legacyStore with
  | true =>
    rw [Bool.not_true, Bool.and_false]
    rfl
  | false =>
    rw [Bool.not_false, Bool.and_true]
    rfl

theorem listing_work (i : Invocation) (settings : Settings) (source : String) :
    (i.work settings (Path.ofString i.input).text source).listing =
      (i.listing settings source).mapError .refused := by
  rw [work, listing, ← options_eq]
  cases i.listsTokens <;> rfl

theorem not_mem_listing (listed : i.listing settings source = .ok text) :
    '\x1b' ∉ text.toList := by
  rw [listing, ← options_eq] at listed
  split at listed
  · cases scanned : (i.options settings).tokens (Path.ofString i.input).text source with
    | error d => rw [scanned] at listed; cases listed
    | ok ts =>
      rw [scanned] at listed
      cases listed
      exact Token.not_mem_listing scanned
  · cases compiled : (i.options settings).compile (Path.ofString i.input).text source with
    | error d => rw [compiled] at listed; cases listed
    | ok c =>
      rw [compiled] at listed
      cases listed
      exact Instruction.not_mem_listing c.code

end Invocation

theorem result_refused (verbose : Bool) (printed : String) (d : Diagnostic) :
    (failed verbose printed (.refused d)).result =
      (if d.cause.isInternal then 3 else 1, "", none) := by
  rw [failed, Outcome.result, Failure.exit]
  cases d.cause.isInternal <;> rfl

theorem stderr_failed {d : Diagnostic} (own : d.cause.isInternal = false) (verbose : Bool)
    (printed : String) :
    (failed verbose printed (.refused d)).stderr = printed ++ echo (d.report ++ "\n") := by
  have exit : (Failure.refused d).exit = .buildError := by simp [Failure.exit, own]
  have report : (Failure.refused d).report = d.report := Failure.report.eq_1 d exit
  rw [failed, failureText, exit, report]
  simp

theorem sourceOf_of_read {p : Path} (found : disk.read p = .ok bytes) :
    sourceOf disk p = (Disk.textOf bytes).mapError .undecodable := by
  rw [sourceOf, found]

namespace Invocation

theorem result_deliver (i : Invocation) (printed : String) (plain : '\x1b' ∉ text.toList) :
    (i.deliver disk printed text).result = i.placed disk text := by
  unfold deliver placed
  cases i.output with
  | none =>
    rw [echo_of_not_mem plain]
    rfl
  | some output =>
    dsimp only
    cases disk.obstacle? (.ofString output) with
    | none => rfl
    | some o => cases o <;> rfl

theorem run_of_listing (settings : Settings)
    (found : disk.read (.ofString i.input) = .ok bytes) (read : Disk.textOf bytes = .ok source) :
    ∃ printed, i.run disk settings =
      match i.listing settings source with
      | .error d => failed i.verbose printed (.refused d)
      | .ok text => i.deliver disk printed text := by
  have work := i.listing_work settings source
  rw [run, sourceOf_of_read found, read]
  dsimp only [Except.mapError]
  rw [work]
  cases i.listing settings source <;> exact ⟨_, rfl⟩

/-- What an invocation leaves behind, whatever it prints of its work. -/
theorem result_run (i : Invocation) (disk : Disk) (settings : Settings) :
    (i.run disk settings).result = i.expected disk settings := by
  unfold expected
  cases found : disk.read (.ofString i.input) with
  | error o =>
    rw [run, sourceOf, found]
    cases o <;> rfl
  | ok bytes =>
    dsimp only
    cases read : Disk.textOf bytes with
    | error fault =>
      rw [run, sourceOf_of_read found, read]
      rfl
    | ok source =>
      obtain ⟨printed, done⟩ := run_of_listing settings found read
      rw [done]
      dsimp only
      cases listed : i.listing settings source with
      | error d => exact result_refused i.verbose printed d
      | ok text => exact i.result_deliver printed (not_mem_listing listed)

/-- If the input is a file, only an output that is a directory is misuse. -/
theorem check_of_file (there : disk.look i.input = .file bytes) :
    i.check disk =
      match i.output with
      | none => .ok ()
      | some output =>
        match disk.look output with
        | .directory => .error (.outputIsDirectory output)
        | _ => .ok () := by
  rw [check, there]
  rfl

theorem exists_output_of_misuse {m : Misuse} (there : disk.look i.input = .file bytes)
    (misused : i.check disk = .error m) :
    ∃ output, i.output = some output ∧ disk.look output = .directory ∧
      m = .outputIsDirectory output := by
  rw [check_of_file there] at misused
  split at misused
  · cases misused
  · next output given =>
    split at misused
    · next directory =>
      cases misused
      exact ⟨output, given, directory, rfl⟩
    · cases misused

end Invocation

theorem run_of_list {arguments : List String}
    (asked : Request.ofArguments arguments = .ok (.list i)) :
    run disk settings arguments = (i.check disk).map fun _ => i.run disk settings := by
  rw [run, asked]
  change (do i.check disk; return i.run disk settings) = _
  cases i.check disk <;> rfl

/-- What is left of a command line that names an existing file, apart from its messages. If the file
cannot be read as a text, or the text is refused, there is neither a listing nor a file. Otherwise
the listing goes to the terminal or to the output file, unless that cannot be written. Showing the
log makes no difference. -/
theorem run_result (disk : Disk) (settings : Settings) (arguments : List String) (i : Invocation)
    (bytes : ByteArray) (asked : Request.ofArguments arguments = .ok (.list i))
    (there : disk.look i.input = .file bytes) :
    (match run disk settings arguments with
    | .error m => ∃ output, i.output = some output ∧ disk.look output = .directory ∧
        m = .outputIsDirectory output
    | .ok outcome =>
      outcome.result = i.expected disk settings ∧
      ∀ bytes source d, disk.read (.ofString i.input) = .ok bytes →
        Disk.textOf bytes = .ok source → i.listing settings source = .error d →
        d.cause.isInternal = false →
        ∃ printed, outcome.stderr = printed ++ echo (d.report ++ "\n")) ∧
    ∀ arguments' verbose, Request.ofArguments arguments' = .ok (.list { i with verbose }) →
      (run disk settings arguments').map Outcome.result =
        (run disk settings arguments).map Outcome.result := by
  constructor
  · rw [run_of_list asked]
    cases checked : i.check disk with
    | error m => exact Invocation.exists_output_of_misuse there checked
    | ok u =>
      refine ⟨i.result_run disk settings, fun bytes source d found read listed own => ?_⟩
      obtain ⟨printed, done⟩ := Invocation.run_of_listing settings found read
      rw [listed] at done
      exact ⟨printed, (congrArg Outcome.stderr done).trans (stderr_failed own i.verbose printed)⟩
  · intro arguments' verbose asked'
    rw [run_of_list asked, run_of_list asked']
    change Except.map _ (Except.map _ (i.check disk)) = _
    cases i.check disk with
    | error m => rfl
    | ok u =>
      have other := Invocation.result_run { i with verbose } disk settings
      exact congrArg Except.ok (other.trans (i.result_run disk settings).symm)

/-- A listing that is written to a new file. -/
theorem run_result_written :
    let bytes := "begin print(1); end".toUTF8
    let disk : Disk :=
      { look path :=
          if path = "a" then .file bytes else if path = "." then .directory else .missing
        mayWrite _ := true }
    let settings : Settings := { maxInteger := "9" }
    let arguments := ["-v", "a", "-o", "b"]
    let i : Invocation := ⟨"a", some "b", false, false, true⟩
    Request.ofArguments arguments = .ok (.list i) ∧ disk.look i.input = .file bytes ∧
      (run disk settings arguments).map Outcome.result =
        .ok (0, "", some (.ofString "b", "LIT 1\nWRT\n")) := by
  intro bytes disk settings arguments i
  have asked : Request.ofArguments arguments = .ok (.list i) := by decide
  have there : disk.look i.input = .file bytes := rfl
  have found : disk.read (.ofString i.input) = .ok bytes := by cbv
  have checked : i.check disk = .ok () := rfl
  have read : Disk.textOf bytes = .ok "begin print(1); end" := by
    rw [Disk.textOf, Utf8.decode_toUTF8]
    rfl
  have compiled : settings.options.compile (Path.ofString "a").text "begin print(1); end" =
      .ok ⟨"a", [.lit 1, .wrt], .empty, 8⟩ := by cbv
  have listed : i.listing settings "begin print(1); end" = .ok "LIT 1\nWRT\n" := by
    change Except.map _ (settings.options.compile (Path.ofString "a").text _) = _
    rw [compiled]
    rfl
  have free : disk.obstacle? (.ofString "b") = none := by cbv
  have result := (run_result disk settings arguments i bytes asked there).1
  rw [run_of_list asked, checked] at result ⊢
  refine ⟨asked, there, congrArg Except.ok (result.1.trans ?_)⟩
  rw [Invocation.expected, found]
  dsimp only
  rw [read]
  dsimp only
  rw [listed]
  dsimp only [i, Invocation.placed]
  rw [free]

end CommandLine
end OnePass
