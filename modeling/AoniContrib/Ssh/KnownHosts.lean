/-
# The cache of known_hosts: `KnownHosts`, `CheckKnownHost` and `AddKnownHost`

`AddKnownHost` appends a line and then drops the cache entry.  `KnownHosts` looks the entry up, stats the
file, and later puts an entry back: the old one with a new time, or one made from the lines it has read.
Nothing ties the two together, so a call that holds what was there before the line may put it back
after the entry was dropped; for a second it is then not even compared with the file
(`added_host_unknown`).  Where no call holds such a callback at that moment, an added host is known from
then on (`added_host_known`).

Times are numbers; the times that `os.Stat` reports are arbitrary.  The file is taken to be read
without an error, and to consist of whole, well-formed lines.
-/
import AoniContrib.Concurrency.Run

namespace AoniContrib.Ssh.KnownHosts

open Concurrency List
open Function (update update_apply)

/-! ## 1. Lines and callbacks -/

/-- A line of the file: the addresses that it is for, and the key. -/
structure Line (α κ : Type) where
  addresses : List α
  key : κ
  deriving DecidableEq

inductive Result where
  /-- `(true, nil)`. -/
  | known
  /-- `(true, ErrHostKeyMismatch)`. -/
  | mismatch
  /-- `(false, ErrHostNotFound)`. -/
  | notFound
  | failed
  deriving DecidableEq, Repr

/-- The callback that `knownhosts.New` makes of the lines of a file. -/
structure HostKeyDB (α κ : Type) where
  check : List (Line α κ) → α → κ → Result
  known : ∀ lines host key, (∃ l ∈ lines, host ∈ l.addresses ∧ l.key = key) →
    (∀ l ∈ lines, host ∈ l.addresses → l.key = key) → check lines host key = .known

/-- `knownHostsCacheEntry`; a callback is given by its lines. -/
structure Entry (α κ : Type) where
  lastStat : Nat
  modTime : Nat
  lines : List (Line α κ)

structure File (α κ : Type) where
  modTime : Nat
  lines : List (Line α κ)

/-- `knownHostsStatInterval`, in units of the clock. -/
def statInterval : Nat := 1000000000

/-! ## 2. Calls -/

/-- The calls that are made: what is asked, with nothing asked by `KnownHosts` itself, and what is
added. -/
structure Calls (α κ : Type) where
  db : HostKeyDB α κ
  checks : Nat
  query : Fin checks → Option (α × κ)
  adds : Nat
  line : Fin adds → Line α κ

variable {α κ : Type} {C : Calls α κ}

/-- Where a call of `KnownHosts` or `CheckKnownHost` is. -/
inductive Phase (α κ : Type) where
  | idle
  /-- `now` has been taken. -/
  | started (now : Nat)
  | looked (now : Nat) (entry : Option (Entry α κ))
  /-- The file is not newer than the entry. -/
  | refreshing (now : Nat) (entry : Entry α κ)
  | reading (now modTime : Nat)
  | loaded (now modTime : Nat) (lines : List (Line α κ))
  | done (result : Result)

/-- Where a call of `AddKnownHost` is. -/
inductive AddPhase where
  | idle
  | appended
  | returned
  deriving DecidableEq

structure State (C : Calls α κ) where
  clock : Nat := 0
  file : Option (File α κ) := none
  cache : Option (Entry α κ) := none
  calls : Fin C.checks → Phase α κ := fun _ => .idle
  adds : Fin C.adds → AddPhase := fun _ => .idle

inductive Event (C : Calls α κ) where
  | tick (clock : Nat)
  | call (c : Fin C.checks)
  | append (a : Fin C.adds)
  | invalidate (a : Fin C.adds)

/-- What the call answers with these lines; `KnownHosts` just returns the callback. -/
def Calls.answer (C : Calls α κ) (c : Fin C.checks) (lines : List (Line α κ)) : Result :=
  match C.query c with
  | some (host, key) => C.db.check lines host key
  | none => .known

def State.at (s : State C) (c : Fin C.checks) (phase : Phase α κ) : State C :=
  { s with calls := update s.calls c phase }

def appendLine (file : Option (File α κ)) (modTime : Nat) (line : Line α κ) : File α κ where
  modTime
  lines := (file.elim [] File.lines) ++ [line]

inductive Step : State C → Event C → State C → Prop where
  | tick {s clock} : s.clock ≤ clock → Step s (.tick clock) { s with clock }
  | start {s c} : s.calls c = .idle → Step s (.call c) (s.at c (.started s.clock))
  /-- The entry is recent. -/
  | debounced {s c now entry} : s.calls c = .started now → s.cache = some entry →
      now - entry.lastStat < statInterval →
      Step s (.call c) (s.at c (.done (C.answer c entry.lines)))
  | look {s c now} : s.calls c = .started now →
      (∀ entry, s.cache = some entry → ¬ now - entry.lastStat < statInterval) →
      Step s (.call c) (s.at c (.looked now s.cache))
  | missing {s c now entry} : s.calls c = .looked now (some entry) → s.file = none →
      Step s (.call c) (s.at c (.done (C.answer c entry.lines)))
  | fail {s c now} : s.calls c = .looked now none → s.file = none →
      Step s (.call c) (s.at c (.done .failed))
  | unchanged {s c now entry file} : s.calls c = .looked now (some entry) → s.file = some file →
      ¬ entry.modTime < file.modTime → Step s (.call c) (s.at c (.refreshing now entry))
  | changed {s c now entry file} : s.calls c = .looked now entry → s.file = some file →
      (∀ e, entry = some e → e.modTime < file.modTime) →
      Step s (.call c) (s.at c (.reading now file.modTime))
  | refresh {s c now entry} : s.calls c = .refreshing now entry →
      Step s (.call c) { s.at c (.done (C.answer c entry.lines)) with
        cache := some { entry with lastStat := now } }
  | load {s c now modTime file} : s.calls c = .reading now modTime → s.file = some file →
      Step s (.call c) (s.at c (.loaded now modTime file.lines))
  | store {s c now modTime lines} : s.calls c = .loaded now modTime lines →
      Step s (.call c) { s.at c (.done (C.answer c lines)) with
        cache := some { lastStat := now, modTime, lines } }
  | append {s a} (modTime : Nat) : s.adds a = .idle →
      Step s (.append a) { s with
        file := some (appendLine s.file modTime (C.line a))
        adds := update s.adds a .appended }
  | invalidate {s a} : s.adds a = .appended →
      Step s (.invalidate a) { s with cache := none, adds := update s.adds a .returned }

def State.new (C : Calls α κ) (file : Option (File α κ)) : State C := { file }

/-! ## 3. What a step can do -/

/-- The lines that a call holds, and may put into the cache. -/
def Phase.lines : Phase α κ → Option (List (Line α κ))
  | looked _ (some entry) => some entry.lines
  | refreshing _ entry => some entry.lines
  | loaded _ _ lines => some lines
  | _ => none

/-- The lines are in the cache, or held by a call. -/
def Holds (s : State C) (lines : List (Line α κ)) : Prop :=
  (∃ entry, s.cache = some entry ∧ entry.lines = lines) ∨ ∃ c, (s.calls c).lines = some lines

section
variable {s t : State C} {e : Event C} {lines : List (Line α κ)}

theorem holds_at {c : Fin C.checks} {phase : Phase α κ} (h : Holds (s.at c phase) lines) :
    Holds s lines ∨ phase.lines = some lines := by
  rcases h with h | ⟨c', h⟩
  · exact .inl (.inl h)
  · simp only [State.at, update_apply] at h
    split_ifs at h with hc
    · exact .inr h
    · exact .inl (.inr ⟨c', h⟩)

/-- **What is held was held before, or was read from the file.** -/
theorem holds_step (hstep : Step s e t) (h : Holds t lines) :
    Holds s lines ∨ ∃ file, s.file = some file ∧ file.lines = lines := by
  cases hstep with
  | tick _ => exact .inl h
  | start _ | debounced _ _ _ => exact .inl ((holds_at h).resolve_right (by simp [Phase.lines]))
  | look hc _ =>
    rcases holds_at h with h | h
    · exact .inl h
    · cases hcache : s.cache with
      | none => simp [Phase.lines, hcache] at h
      | some entry =>
        rw [hcache] at h
        exact .inl (.inl ⟨entry, hcache, Option.some.inj h⟩)
  | missing _ _ | fail _ _ => exact .inl ((holds_at h).resolve_right (by simp [Phase.lines]))
  | @unchanged _ _ entry _ hc _ _ =>
    rcases holds_at h with h | h
    · exact .inl h
    · exact .inl (.inr ⟨_, by rw [hc]; exact h⟩)
  | changed _ _ _ => exact .inl ((holds_at h).resolve_right (by simp [Phase.lines]))
  | @refresh c _ entry hc =>
    rcases h with ⟨entry', hcache, hlines⟩ | h
    · obtain rfl := Option.some.inj hcache
      exact .inl (.inr ⟨c, by rw [hc]; exact congrArg some hlines⟩)
    · exact .inl ((holds_at (.inr h)).resolve_right (by simp [Phase.lines]))
  | load _ hfile =>
    rcases holds_at h with h | h
    · exact .inl h
    · exact .inr ⟨_, hfile, Option.some.inj h⟩
  | @store c _ _ _ hc =>
    rcases h with ⟨entry', hcache, hlines⟩ | h
    · obtain rfl := Option.some.inj hcache
      exact .inl (.inr ⟨c, by rw [hc]; exact congrArg some hlines⟩)
    · exact .inl ((holds_at (.inr h)).resolve_right (by simp [Phase.lines]))
  | append _ => exact .inl h
  | invalidate _ =>
    rcases h with ⟨_, hcache, -⟩ | h
    · cases hcache
    · exact .inl (.inr h)

theorem file_step (hstep : Step s e t) {file : File α κ} (hfile : s.file = some file) :
    ∃ file', t.file = some file' ∧ file.lines <+: file'.lines := by
  cases hstep with
  | append _ =>
    refine ⟨_, rfl, ?_⟩
    rw [appendLine, hfile]
    exact prefix_append _ _
  | _ => exact ⟨file, hfile, prefix_rfl⟩

theorem answer_step (hstep : Step s e t) {c : Fin C.checks} {r : Result} (h : t.calls c = .done r) :
    s.calls c = .done r ∨ (∃ lines, Holds s lines ∧ r = C.answer c lines) ∨ s.file = none := by
  -- a call that moves on to another phase has not answered in this step
  have hat : ∀ {c' : Fin C.checks} {phase : Phase α κ}, update s.calls c' phase c = .done r →
      s.calls c = .done r ∨ c = c' ∧ phase = .done r := by
    intro c' phase h
    rw [update_apply] at h
    split_ifs at h with hc
    · exact .inr ⟨hc, h⟩
    · exact .inl h
  cases hstep with
  | tick _ => exact .inl h
  | start _ => exact .inl ((hat h).resolve_right (by simp))
  | debounced _ hcache _ =>
    rcases hat h with h | ⟨rfl, h⟩
    · exact .inl h
    · cases h
      exact .inr (.inl ⟨_, .inl ⟨_, hcache, rfl⟩, rfl⟩)
  | look _ _ => exact .inl ((hat h).resolve_right (by simp))
  | missing _ hnone | fail _ hnone => exact .inr (.inr hnone)
  | unchanged _ _ _ | changed _ _ _ => exact .inl ((hat h).resolve_right (by simp))
  | refresh hc =>
    rcases hat h with h | ⟨rfl, h⟩
    · exact .inl h
    · cases h
      exact .inr (.inl ⟨_, .inr ⟨c, by rw [hc]; rfl⟩, rfl⟩)
  | load _ _ => exact .inl ((hat h).resolve_right (by simp))
  | store hc =>
    rcases hat h with h | ⟨rfl, h⟩
    · exact .inl h
    · cases h
      exact .inr (.inl ⟨_, .inr ⟨c, by rw [hc]; rfl⟩, rfl⟩)
  | append _ | invalidate _ => exact .inl h

theorem adds_step (hstep : Step s e t) (a : Fin C.adds) : t.adds a = s.adds a ∨
    (∃ file, t.file = some file ∧ C.line a ∈ file.lines) ∧ t.adds a = .appended ∨
    e = .invalidate a ∧ s.adds a = .appended := by
  cases hstep with
  | @append a' modTime _ =>
    by_cases ha : a = a'
    · subst ha
      refine .inr (.inl ⟨⟨_, rfl, ?_⟩, Function.update_self _ _ _⟩)
      exact mem_append_right _ mem_cons_self
    · exact .inl (Function.update_of_ne ha _ _)
  | @invalidate a' happended =>
    by_cases ha : a = a'
    · subst ha
      exact .inr (.inr ⟨rfl, happended⟩)
    · exact .inl (Function.update_of_ne ha _ _)
  | _ => exact .inl rfl

end

/-! ## 4. Added hosts -/

/-- The cache entry is dropped when no call holds lines without the one that was added. -/
def NoneStale (s : State C) : Event C → Prop
  | .invalidate a => ∀ c lines, (s.calls c).lines = some lines → C.line a ∈ lines
  | _ => True

def InFile (s : State C) (line : Line α κ) : Prop := ∃ file, s.file = some file ∧ line ∈ file.lines

structure Coherent (s : State C) : Prop where
  /-- What is held was in the file. -/
  within : ∀ lines, Holds s lines → ∃ file, s.file = some file ∧ lines <+: file.lines
  appended : ∀ a, s.adds a ≠ .idle → InFile s (C.line a)
  returned : ∀ a, s.adds a = .returned → ∀ lines, Holds s lines → C.line a ∈ lines

theorem coherent_new (file : Option (File α κ)) : Coherent (State.new C file) := by
  refine ⟨?_, fun a h => absurd rfl h, fun a h => by cases h⟩
  rintro lines (⟨entry, h, -⟩ | ⟨c, h⟩)
  · cases h
  · cases h

section
variable {s t : State C} {e : Event C}

theorem InFile.step {line : Line α κ} (h : InFile s line) (hstep : Step s e t) : InFile t line := by
  obtain ⟨file, hfile, hmem⟩ := h
  obtain ⟨file', hfile', hsub⟩ := file_step hstep hfile
  exact ⟨file', hfile', hsub.subset hmem⟩

theorem coherent_step (h : When NoneStale Step s e t) (hs : Coherent s) : Coherent t := by
  obtain ⟨hcond, hstep⟩ := h
  refine ⟨fun lines hlines => ?_, fun a ha => ?_, fun a ha lines hlines => ?_⟩
  · obtain ⟨file, hfile, hsub⟩ : ∃ file, s.file = some file ∧ lines <+: file.lines := by
      rcases holds_step hstep hlines with hold | ⟨file, hfile, rfl⟩
      · exact hs.within lines hold
      · exact ⟨file, hfile, prefix_rfl⟩
    obtain ⟨file', hfile', hsub'⟩ := file_step hstep hfile
    exact ⟨file', hfile', hsub.trans hsub'⟩
  · rcases adds_step hstep a with hsame | ⟨hin, -⟩ | ⟨-, happended⟩
    · exact (hs.appended a (hsame ▸ ha)).step hstep
    · exact hin
    · exact (hs.appended a (by rw [happended]; decide)).step hstep
  · rcases adds_step hstep a with hsame | ⟨-, happended⟩ | ⟨rfl, happended⟩
    · rw [hsame] at ha
      rcases holds_step hstep hlines with hold | ⟨file, hfile, rfl⟩
      · exact hs.returned a ha lines hold
      · obtain ⟨file', hfile', hmem⟩ := hs.appended a (by rw [ha]; decide)
        obtain rfl := Option.some.inj (hfile.symm.trans hfile')
        exact hmem
    · rw [happended] at ha
      cases ha
    · -- the entry is gone, and the calls hold the line
      cases hstep with
      | invalidate _ =>
        rcases hlines with ⟨_, hcache, -⟩ | ⟨c, hc⟩
        · cases hcache
        · exact hcond c lines hc

theorem coherent_of_run {as : List (Event C)} {file : Option (File α κ)} {s : State C}
    (h : Run (When NoneStale Step) (State.new C file) as s) : Coherent s :=
  h.invariant (fun _ _ _ => coherent_step) (coherent_new file)

theorem returned_step {a : Fin C.adds} (hstep : Step s e t)
    (ha : s.adds a = .returned) : t.adds a = .returned := by
  rcases adds_step hstep a with hsame | ⟨-, happended⟩ | ⟨-, happended⟩
  · rw [hsame, ha]
  · cases hstep with
    | append _ hidle =>
      simp only [update_apply] at happended
      split_ifs at happended with heq
      · rw [← heq, ha] at hidle
        cases hidle
      · rw [ha] at happended
        cases happended
    | invalidate _ =>
      simp only [update_apply] at happended
      split_ifs at happended
      rw [ha] at happended
      cases happended
    | _ => exact ha
  · rw [ha] at happended
    cases happended

/-- The call has answered with lines that have the line, if it has answered. -/
def AnsweredWith (C : Calls α κ) (c : Fin C.checks) (line : Line α κ) (s : State C) : Prop :=
  ∀ r, s.calls c = .done r → ∃ lines file, line ∈ lines ∧ s.file = some file ∧
    lines <+: file.lines ∧ r = C.answer c lines

theorem answeredWith_step {a : Fin C.adds} {c : Fin C.checks}
    (hstep : Step s e t) (hs : Coherent s) (ha : s.adds a = .returned)
    (h : AnsweredWith C c (C.line a) s) : AnsweredWith C c (C.line a) t := by
  intro r hr
  obtain ⟨lines, file, hmem, hfile, hsub, hanswer⟩ : ∃ lines file, C.line a ∈ lines ∧
      s.file = some file ∧ lines <+: file.lines ∧ r = C.answer c lines := by
    rcases answer_step hstep hr with hdone | ⟨lines, hholds, hanswer⟩ | hnone
    · exact h r hdone
    · obtain ⟨file, hfile, hsub⟩ := hs.within lines hholds
      exact ⟨lines, file, hs.returned a ha lines hholds, hfile, hsub, hanswer⟩
    · obtain ⟨file, hfile, -⟩ := hs.appended a (by rw [ha]; decide)
      rw [hnone] at hfile
      cases hfile
  obtain ⟨file', hfile', hsub'⟩ := file_step hstep hfile
  exact ⟨lines, file', hmem, hfile', hsub.trans hsub', hanswer⟩

end

/-- How many steps a call has before it at most. -/
def Phase.rank : Phase α κ → Nat
  | idle => 5
  | started _ => 4
  | looked _ _ => 3
  | reading _ _ => 2
  | refreshing _ _ => 1
  | loaded _ _ _ => 1
  | done _ => 0

theorem exists_call_step {s : State C} {f : File α κ} (hf : s.file = some f) {c : Fin C.checks}
    (hc : ∀ r, s.calls c ≠ .done r) :
    ∃ t, Step s (.call c) t ∧ (t.calls c).rank < (s.calls c).rank := by
  cases hphase : s.calls c with
  | idle => exact ⟨_, .start hphase, by simp [State.at, Phase.rank]⟩
  | started now =>
    by_cases hrecent : ∃ entry, s.cache = some entry ∧ now - entry.lastStat < statInterval
    · obtain ⟨entry, hcache, hlt⟩ := hrecent
      exact ⟨_, .debounced hphase hcache hlt, by simp [State.at, Phase.rank]⟩
    · exact ⟨_, .look hphase fun entry hcache hlt => hrecent ⟨entry, hcache, hlt⟩,
        by simp [State.at, Phase.rank]⟩
  | looked now entry =>
    by_cases hold : ∃ e, entry = some e ∧ ¬ e.modTime < f.modTime
    · obtain ⟨e, rfl, hlt⟩ := hold
      exact ⟨_, .unchanged hphase hf hlt, by simp [State.at, Phase.rank]⟩
    · exact ⟨_, .changed hphase hf fun e he => not_not.mp fun hlt => hold ⟨e, he, hlt⟩,
        by simp [State.at, Phase.rank]⟩
  | refreshing now entry => exact ⟨_, .refresh hphase, by simp [State.at, Phase.rank]⟩
  | reading now modTime => exact ⟨_, .load hphase hf, by simp [State.at, Phase.rank]⟩
  | loaded now modTime lines => exact ⟨_, .store hphase, by simp [State.at, Phase.rank]⟩
  | done r => exact absurd hphase (hc r)

/-- **A host added to known_hosts is known at once**, if whenever the cache entry is dropped no call
holds a callback from before the line: a `CheckKnownHost` call that starts after `AddKnownHost` has
returned answers `(true, nil)`, as long as the file has no other key for the host.  Until then it can
always go on, and comes nearer to its answer. -/
theorem added_host_known {file : Option (File α κ)} {as bs : List (Event C)} {s t : State C}
    (h : Run (When NoneStale Step) (State.new C file) as s) {a : Fin C.adds}
    (ha : s.adds a = .returned) {c : Fin C.checks} (hc : s.calls c = .idle)
    (h' : Run (When NoneStale Step) s bs t) {host : α} {key : κ}
    (hquery : C.query c = some (host, key)) (hhost : host ∈ (C.line a).addresses)
    (hkey : (C.line a).key = key)
    (honly : ∀ f, t.file = some f → ∀ l ∈ f.lines, host ∈ l.addresses → l.key = key) :
    (∀ r, t.calls c = .done r → r = .known) ∧
      ((∀ r, t.calls c ≠ .done r) → ∃ u, Step t (.call c) u ∧ (u.calls c).rank < (t.calls c).rank) := by
  have hall : (Coherent t ∧ t.adds a = .returned) ∧ AnsweredWith C c (C.line a) t := by
    refine h'.invariant
      (I := fun s => (Coherent s ∧ s.adds a = .returned) ∧ AnsweredWith C c (C.line a) s) ?_
      ⟨⟨coherent_of_run h, ha⟩, fun r hr => by rw [hc] at hr; cases hr⟩
    rintro s e t hstep ⟨⟨hs, ha⟩, hc⟩
    exact ⟨⟨coherent_step hstep hs, returned_step hstep.2 ha⟩, answeredWith_step hstep.2 hs ha hc⟩
  refine ⟨fun r hr => ?_, fun hopen => ?_⟩
  · obtain ⟨lines, f, hmem, hf, hsub, rfl⟩ := hall.2 r hr
    rw [Calls.answer, hquery]
    exact C.db.known lines host key ⟨_, hmem, hhost, hkey⟩ fun l hl =>
      honly f hf l (hsub.subset hl)
  · obtain ⟨f, hf, -⟩ := hall.1.1.appended a (by rw [hall.1.2]; decide)
    exact exists_call_step hf hopen

/-! ## 5. A slow reader -/

def anyKey : HostKeyDB Nat Nat where
  check lines host key :=
    if lines.any (fun l => host ∈ l.addresses ∧ l.key = key) then .known
    else if lines.any (fun l => host ∈ l.addresses) then .mismatch
    else .notFound
  known lines host key h _ := by
    obtain ⟨l, hl, hhost, hkey⟩ := h
    exact if_pos (any_eq_true.mpr ⟨l, hl, by simp [hhost, hkey]⟩)

/-- `KnownHosts`, a check of key 7 for host 1, and the addition of that key. -/
def oneHost : Calls Nat Nat where
  db := anyKey
  checks := 2
  query c := if c.val = 0 then none else some (1, 7)
  adds := 1
  line _ := ⟨[1], 7⟩

def emptyFile : File Nat Nat := ⟨0, []⟩

def hostAdded : State oneHost where
  file := some (appendLine (some emptyFile) 1 ⟨[1], 7⟩)
  adds := update (update (fun _ => .idle) (0 : Fin 1) .appended) (0 : Fin 1) .returned

theorem added_host_known_check : ∃ as bs, ∃ t : State oneHost,
    Run (When NoneStale Step) (State.new oneHost (some emptyFile)) as hostAdded ∧
    Run (When NoneStale Step) hostAdded bs t ∧ hostAdded.adds (0 : Fin 1) = .returned ∧
    hostAdded.calls (1 : Fin 2) = .idle ∧ ∃ r, t.calls (1 : Fin 2) = .done r ∧ r = .known := by
  have hadd : Run (When NoneStale Step) (State.new oneHost (some emptyFile))
      [.append (0 : Fin 1), .invalidate (0 : Fin 1)] hostAdded :=
    .consWhen (.append 1 rfl) trivial (.consWhen (.invalidate rfl) (fun c lines h => by cases h) .nil)
  have hcheck : Run (When NoneStale Step) hostAdded [.call (1 : Fin 2), .call (1 : Fin 2),
      .call (1 : Fin 2), .call (1 : Fin 2), .call (1 : Fin 2)] _ :=
    .consWhen (.start rfl) trivial (.consWhen (.look rfl (by rintro _ ⟨⟩)) trivial
      (.consWhen (.changed rfl rfl (by rintro _ ⟨⟩)) trivial (.consWhen (.load rfl rfl) trivial
        (.consWhen (.store rfl) trivial .nil))))
  refine ⟨_, _, _, hadd, hcheck, rfl, rfl, _, rfl,
    (added_host_known hadd (a := (0 : Fin 1)) rfl (c := (1 : Fin 2)) rfl hcheck rfl
      (mem_singleton_self 1) rfl ?_).1 _ rfl⟩
  rintro f ⟨⟩ l hl -
  obtain rfl := mem_singleton.mp hl
  rfl

/-- `KnownHosts` has read the file, and stores what it read when the line has been added and the cache
entry dropped; the check finds that entry recent, and does not know the host. -/
theorem added_host_unknown : ∃ as bs, ∃ s t : State oneHost,
    Run Step (State.new oneHost (some emptyFile)) as s ∧ Run Step s bs t ∧
    s.adds (0 : Fin 1) = .returned ∧ s.calls (1 : Fin 2) = .idle ∧
    t.calls (1 : Fin 2) = .done .notFound ∧
    t.file.map File.lines = some [⟨[1], 7⟩] := by
  have hadd : Run Step (State.new oneHost (some emptyFile)) (List.replicate 4 (.call (0 : Fin 2)) ++
        [.append (0 : Fin 1), .invalidate (0 : Fin 1)]) _ :=
    .cons (.start rfl) (.cons (.look rfl (by rintro _ ⟨⟩))
      (.cons (.changed rfl rfl (by rintro _ ⟨⟩)) (.cons (.load rfl rfl)
        (.cons (.append 1 rfl) (.cons (.invalidate rfl) .nil)))))
  refine ⟨_, [.call (0 : Fin 2), .call (1 : Fin 2), .call (1 : Fin 2)], _, _, hadd,
    .cons (.store rfl) (.cons (.start rfl) (.cons (.debounced rfl rfl ?_) .nil)), rfl, rfl, rfl, rfl⟩
  decide

end AoniContrib.Ssh.KnownHosts
