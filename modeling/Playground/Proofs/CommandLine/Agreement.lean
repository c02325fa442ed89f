import Playground.Proofs.CommandLine.Compiling
import Playground.Proofs.Share.RoundTrip
import Playground.Proofs.Share.Size

/-!
# Commands agree on the state

`run` loads fields into a new desk, `share` writes them over the initial state, and `open` reads
them from a link.  All work on the same state (`commands_agree`).  Each of its fields comes from
the first place in this list that has it:

    command line     the settings, and the file for the program
    store            a text that can be read
    initial state

That a desk compiles just the state it starts with is `compiles_compileOnce`.  What is left is
that a link within the limits carries a state whole.
-/

namespace Playground

open Text

namespace CommandLine

/-! ## The state of a command -/

/-- The text of a field that the command line gives.  The program is the one of its file. -/
def told? (s : Settings) (code : Option String) : String → Option String
  | "code" => code
  | "compiler" => s.compiler
  | "compiler_flags" => s.flags
  | "show_compiler_log" => if s.quiet then some "false" else none
  | _ => none

/-- The text of a field that the command line or the store gives.  A text that cannot be read
is none. -/
def given? (s : Settings) (c : Config) (disk : Files.Disk) (code : Option String)
    (key : String) : Option String :=
  (told? s code key).or ((storeOf c disk).get key).toOption.join

theorem get?_foldl_toList (m : Fields) (k key : String) (o : Option String) :
    ((o.map fun v => (k, v)).toList.foldl (fun m p => m.insert p.1 p.2) m).get? key =
      if key = k then o.or (m.get? key) else m.get? key := by
  cases o with
  | none => simp
  | some v => simp [Fields.get?_insert]

theorem get?_overrides (s : Settings) (code : Option String) {key : String}
    (h : key ∈ State.keys) : (s.overrides code).get? key = told? s code key := by
  have hquiet : (if s.quiet then [("show_compiler_log", "false")] else []) =
      ((if s.quiet then some "false" else none).map fun v => ("show_compiler_log", v)).toList := by
    cases s.quiet <;> rfl
  rw [Settings.overrides, hquiet, Fields.ofList]
  simp only [List.foldl_append, get?_foldl_toList, Fields.get?_empty]
  simp only [State.keys, List.mem_cons, List.not_mem_nil, or_false] at h
  rcases h with rfl | rfl | rfl | rfl <;> simp [told?]

/-- The fields that the command line gives, over those of the store. -/
def givenFields (s : Settings) (c : Config) (disk : Files.Disk) (code : Option String) : Fields :=
  (storeOf c disk).load.extend (s.overrides code)

theorem get?_givenFields (s : Settings) (c : Config) (disk : Files.Disk) (code : Option String)
    {key : String} (h : key ∈ State.keys) :
    (givenFields s c disk code).get? key = given? s c disk code key := by
  rw [givenFields, Fields.get?_extend, Store.get?_load_eq _ h, get?_overrides s code h, given?]

/-- The state is the initial one with the given fields. -/
structure IsGiven (s : Settings) (c : Config) (disk : Files.Disk) (code : Option String)
    (st : State) : Prop where
  /-- A field that is given is written, and any other one is as in the initial state. -/
  toPairs_eq : st.toPairs = State.initial.toPairs.map fun p =>
    (p.1, ((given? s c disk code p.1).map (State.written p.1)).getD p.2)
  /-- The order in which the fields are written does not matter. -/
  foldl_eq : ∀ ps : List (String × String), ps.Perm (givenFields s c disk code).toList →
    ps.foldl (fun t p => t.set p.1 p.2) State.initial = st

theorem isGiven_apply (s : Settings) (c : Config) (disk : Files.Disk) (code : Option String) :
    IsGiven s c disk code (State.initial.apply (givenFields s c disk code)) where
  toPairs_eq := by
    rw [State.toPairs_apply]
    apply List.map_congr_left
    intro p hp
    have hkey : p.1 ∈ State.keys := State.initial.map_fst_toPairs ▸ List.mem_map_of_mem hp
    rw [get?_givenFields s c disk code hkey]
  foldl_eq := fun _ hps => State.foldl_set_perm .initial hps (givenFields s c disk code).nodup

/-! ## Compiling -/

theorem state_startDesk (s : Settings) (c : Config) (disk : Files.Disk) (code : Option String) :
    (startDesk s c disk code).state = State.initial.apply (givenFields s c disk code) := by
  rw [startDesk, Desk.state_edit, ← Desk.state_start (storeOf c disk)]
  rfl

/-! ## Links -/

/-- The link begins a session with the state, on any machine and whatever the settings are. -/
structure Opens (url : String) (st : State) : Prop where
  /-- Its fields make any state this one. -/
  session : ∀ store, (Session.start (some url) store).origin = .shared ∧
    ∀ t : State, t.apply (Session.start (some url) store).fields = st
  /-- The program is printed. -/
  printed : ∀ m contents s c, Settings.load s m = .ok c →
    execute m contents s (.openLink url none) = .ok m.disk st.code
  /-- Or it is written to a file, which is read as the program then. -/
  written : ∀ m contents s c path, Settings.load s m = .ok c →
    (∃ disk, m.disk.writeText path st.code = .ok disk ∧ disk.readText path = .ok st.code ∧
      execute m contents s (.openLink url (some path)) = .ok disk "") ∨
    ¬ m.disk.Writable path ∧
      execute m contents s (.openLink url (some path)) = .failed m.disk (.unwritable path)

/-- A link within the limits begins a session with the fields of its state. -/
theorem start_link {st : State} (h : Share.Fits st) (base : String) (store : Store) :
    Session.start (some (Share.link base st)) store = ⟨.shared, st.toFields⟩ := by
  have hfields : Share.fields? (Share.link base st) = some st.toFields := by
    rw [Share.fields?, Share.fieldsWithin?_link, if_pos ⟨h.1, h.2⟩]
  rw [Session.start, Option.bind_some, hfields]

theorem openLink_link {st : State} (h : Share.Fits st) (base : String) (m : Machine)
    (output : Option String) : openLink m (Share.link base st) output =
      match output with
      | none => .ok m.disk st.code
      | some path =>
        match m.disk.writeText path st.code with
        | .ok disk => .ok disk ""
        | .error _ => .failed m.disk (.unwritable path) := by
  unfold openLink
  rw [start_link h]
  simp only [State.apply_toFields]
  rfl

theorem opens_link {st : State} (h : Share.Fits st) (base : String) :
    Opens (Share.link base st) st where
  session := by
    intro store
    rw [start_link h]
    exact ⟨rfl, State.apply_toFields st⟩
  printed := by
    intro m contents s c hc
    rw [execute, hc]
    exact openLink_link h base m none
  written := by
    intro m contents s c path hc
    rw [execute, hc]
    dsimp only
    rw [openLink_link h base m (some path)]
    dsimp only
    cases hwrite : m.disk.writeText path st.code with
    | ok disk => exact .inl ⟨disk, rfl, Files.Disk.readText_of_writeText hwrite, rfl⟩
    | error e =>
      refine .inr ⟨fun hwritable => ?_, rfl⟩
      obtain ⟨disk, hok⟩ :=
        (Files.Disk.exists_write_iff (Utf8.encode st.code.toList)).mpr hwritable
      cases hok.symm.trans hwrite

/-! ## Agreement -/

/-- Commands work on one state.  If the file cannot be read, then none is compiled and none is
shared.  Otherwise the state that is compiled is the state that is shared, by a long link and by
the one that a short link stands for, and it is the initial one with the fields that are given.
If its link is within the limits, it opens as that state. -/
theorem commands_agree {m : Machine} {s : Settings} {c : Config} (hc : s.load m = .ok c)
    (contents : List String) (file : Option String) :
    (∀ e, readSource? m.disk file = .error e →
      execute m contents s (.run file) = .failed m.disk e ∧
      ∀ long, execute m contents s (.share file long) = .failed m.disk e) ∧
    ∀ code, readSource? m.disk file = .ok code →
      ∃ st, (startDesk s c m.disk code).state = st ∧
        Compiles m s c st (execute m contents s (.run file)) ∧
        execute m contents s (.share file true) =
          .ok m.disk (Share.link c.shareBaseUrl st ++ "\n") ∧
        (execute m contents s (.share file false)).requests =
          (ShortenService.request m.client.toAscii c.shortenerUrl
            (Share.link c.shareBaseUrl st)).toOption.toList ∧
        IsGiven s c m.disk code st ∧
        (Share.Fits st → Opens (Share.link c.shareBaseUrl st) st) := by
  simp only [execute, hc]
  refine ⟨fun e he => ?unreadable, fun code hcode => ?_⟩
  case unreadable => exact ⟨by rw [compileOnce, he], fun long => by rw [share, he]⟩
  refine ⟨State.initial.apply (givenFields s c m.disk code), state_startDesk s c m.disk code,
    compiles_compileOnce hcode s c, ?longLink, ?shortLink, isGiven_apply s c m.disk code,
    fun h => opens_link h c.shareBaseUrl⟩
  case longLink =>
    rw [share, hcode]
    rfl
  case shortLink =>
    rw [share, hcode]
    simp [SharePanel.asks]
    rfl

/-- A disk with a program, and a store in which one field is a directory and one is no text. -/
def mixedDisk : Files.Disk where
  nodes := [(["int.cpp"], .file (Utf8.encode "int é;".toList)), (["store"], .directory),
    (["store", "compiler"], .file (Utf8.encode "g93".toList)),
    (["store", "compiler_flags"], .directory), (["store", "show_compiler_log"], .file [0xFF])]
  current := []

/-- A machine with that disk, on which no service is reached. -/
def mixedMachine : Machine where
  env := .ofList [("CTP_STORAGE_DIR", "store")]
  disk := mixedDisk
  client := ⟨Url.simpleAscii, Http.simpleDecoders, fun _ => .unreachable⟩
  latency _ := 10

/-- The log is hidden. -/
def quietSettings : Settings := ⟨none, none, none, true, false⟩

/-- The state with the program of the disk and the compiler of its store. -/
def mixedState : State := { State.initial with
  code := "int é;"
  compiler := "g93"
  showCompilerLog := false }

theorem commands_agree_mixedState : ∃ c, quietSettings.load mixedMachine = .ok c ∧
    readSource? mixedDisk (some "int.cpp") = .ok (some "int é;") ∧
    (startDesk quietSettings c mixedDisk (some "int é;")).state = mixedState ∧
    Compiles mixedMachine quietSettings c mixedState
      (execute mixedMachine [] quietSettings (.run (some "int.cpp"))) ∧
    (execute mixedMachine [] quietSettings (.run (some "int.cpp"))).exit = some 1 ∧
    execute mixedMachine [] quietSettings (.share (some "int.cpp") true) =
      .ok mixedDisk (Share.link c.shareBaseUrl mixedState ++ "\n") ∧
    Opens (Share.link c.shareBaseUrl mixedState) mixedState := by
  obtain ⟨c, hc⟩ : ∃ c, quietSettings.load mixedMachine = .ok c := ⟨_, rfl⟩
  have hread : readSource? mixedDisk (some "int.cpp") = .ok (some "int é;") := by rfl
  obtain ⟨st, hstart, hrun, hshare, -, -, hopens⟩ :=
    (commands_agree hc [] (some "int.cpp")).2 _ hread
  have hst : st = mixedState := by
    cases hc
    rw [← hstart, state_startDesk]
    decide +kernel
  have hfits : Share.Fits mixedState := Share.fits_of_length_le (by decide +kernel)
  subst hst
  have hexit : (shown? mixedMachine c mixedState).map
      (fun r => if r.status = .failed then 1 else 0) = some 1 := by
    cases hc
    decide +kernel
  exact ⟨c, hc, hread, hstart, hrun, hrun.exit_eq.trans hexit, hshare, hopens hfits⟩

end CommandLine

end Playground
