/-
# The attributes of a span: `SetAttribute`, `SetAttributes` and `Start`

Three calls write the same slice.  `SetAttribute` looks for the key and replaces the value;
`SetAttributes`, and `Start` through it, append what they are given.  So a key that a bulk call
mentions for the second time stands twice in the exported snapshot, and the attributes are a map, with
the value of the last call that mentioned a key, exactly if no bulk call does that
(`exported_isMap_iff`).

The calls on a span are those that reach its object between `Start` and `End`, through whichever
handle.
-/
import AoniContrib.Otel.Parent

namespace AoniContrib.Otel

open Go List
open Function (update_apply)

/-! ## 1. Calls, and what they mention -/

def SpanOp.mentions : SpanOp → List Attribute
  | .setAttribute key value => [⟨key, value⟩]
  | .setAttributes attrs => attrs
  | .setName _ | .setStatus _ _ | .addEvent _ _ _ | .recordError _ _ => []

/-- What a call makes of the attributes of a span that has not ended. -/
def SpanOp.write : SpanOp → List Attribute → List Attribute
  | .setAttribute key value, attrs => Span.replaceAttribute key value attrs
  | .setAttributes new, attrs => attrs ++ new
  | .setName _, attrs | .setStatus _ _, attrs | .addEvent _ _ _, attrs | .recordError _ _, attrs =>
    attrs

def keys (attrs : List Attribute) : List Bytes := attrs.map (·.key)

/-- The value that the last mention of a key gives it. -/
def lastValue (key : Bytes) (mentions : List Attribute) : Option Value :=
  (mentions.reverse.find? (·.key = key)).map (·.value)

/-- Every key stands there once, with the value of its last mention. -/
structure IsMap (attrs mentions : List Attribute) : Prop where
  nodup : (keys attrs).Nodup
  mem : ∀ a, a ∈ attrs ↔ lastValue a.key mentions = some a.value

/-- A bulk call mentions no key twice and none that was mentioned before. -/
def SpanOp.Fresh (seen : List Bytes) : SpanOp → Prop
  | .setAttributes attrs => (keys attrs).Nodup ∧ ∀ key ∈ keys attrs, key ∉ seen
  | .setAttribute _ _ | .setName _ | .setStatus _ _ | .addEvent _ _ _ | .recordError _ _ => True

def FreshBulk : List Bytes → List SpanOp → Prop
  | _, [] => True
  | seen, op :: ops => op.Fresh seen ∧ FreshBulk (seen ++ keys op.mentions) ops

/-! ## 2. The last mention -/

theorem keys_cons (a : Attribute) (as : List Attribute) : keys (a :: as) = a.key :: keys as := rfl

theorem keys_append (as bs : List Attribute) : keys (as ++ bs) = keys as ++ keys bs := map_append

theorem lastValue_append (key : Bytes) (as bs : List Attribute) :
    lastValue key (as ++ bs) = (lastValue key bs).or (lastValue key as) := by
  simp only [lastValue, reverse_append, find?_append]
  cases bs.reverse.find? (·.key = key) <;> rfl

theorem lastValue_cons (key : Bytes) (a : Attribute) (as : List Attribute) :
    lastValue key (a :: as) = (lastValue key as).or (if a.key = key then some a.value else none) := by
  rw [← singleton_append, lastValue_append]
  congr 1
  by_cases h : a.key = key <;> simp [lastValue, h]

variable {key : Bytes} {as attrs : List Attribute}

theorem lastValue_eq_none_iff : lastValue key as = none ↔ key ∉ keys as := by
  simp only [lastValue, Option.map_eq_none_iff, find?_eq_none, mem_reverse, keys,
    mem_map, decide_eq_true_eq, not_exists, not_and]

theorem isMap_self (h : (keys as).Nodup) : IsMap as as := by
  refine ⟨h, fun a => ?_⟩
  induction as with
  | nil => simp [lastValue]
  | cons b as ih =>
    obtain ⟨hb, has⟩ := nodup_cons.mp h
    rw [lastValue_cons, mem_cons]
    constructor
    · rintro (rfl | ha)
      · rw [lastValue_eq_none_iff.mpr hb, Option.none_or, if_pos rfl]
      · rw [(ih has).mp ha, Option.some_or]
    · intro hvalue
      rcases Option.or_eq_some_iff.mp hvalue with hvalue | ⟨-, hvalue⟩
      · exact .inr ((ih has).mpr hvalue)
      · left
        split_ifs at hvalue with hkey
        cases a
        cases b
        simp_all

theorem IsMap.mem_keys {mentions : List Attribute} (h : IsMap attrs mentions) (key : Bytes) :
    key ∈ keys attrs ↔ key ∈ keys mentions := by
  have hnone : key ∉ keys mentions ↔ lastValue key mentions = none := lastValue_eq_none_iff.symm
  rw [← not_iff_not, hnone]
  constructor
  · intro hkey
    by_contra hne
    obtain ⟨value, hvalue⟩ := Option.ne_none_iff_exists'.mp hne
    exact hkey (mem_map.mpr ⟨⟨key, value⟩, (h.mem ⟨key, value⟩).mpr hvalue, rfl⟩)
  · intro hnone hkey
    obtain ⟨a, ha, rfl⟩ := mem_map.mp hkey
    rw [(h.mem a).mp ha] at hnone
    cases hnone

/-! ## 3. One call -/

theorem keys_replaceAttribute (key : Bytes) (value : Value) (attrs : List Attribute) :
    keys (Span.replaceAttribute key value attrs) =
      if key ∈ keys attrs then keys attrs else keys attrs ++ [key] := by
  induction attrs with
  | nil => rfl
  | cons a as ih =>
    rw [Span.replaceAttribute]
    by_cases ha : a.key = key
    · have hmem : key ∈ keys (a :: as) := mem_cons.mpr (.inl ha.symm)
      rw [if_pos ha, if_pos hmem, keys_cons, keys_cons, ha]
    · have hmem : key ∈ keys (a :: as) ↔ key ∈ keys as := by
        simp [keys_cons, Ne.symm ha]
      rw [if_neg ha, keys_cons, ih, keys_cons]
      simp only [← keys_cons, hmem]
      split_ifs <;> rfl

theorem mem_replaceAttribute {value : Value}
    (h : (keys attrs).Nodup) (a : Attribute) :
    a ∈ Span.replaceAttribute key value attrs ↔ if a.key = key then a.value = value else a ∈ attrs := by
  induction attrs with
  | nil =>
    rw [Span.replaceAttribute, mem_singleton]
    obtain ⟨k, v⟩ := a
    by_cases hk : k = key <;> simp [hk]
  | cons b as ih =>
    obtain ⟨hb, has⟩ := nodup_cons.mp h
    rw [Span.replaceAttribute]
    by_cases hkey : b.key = key
    · rw [if_pos hkey, mem_cons]
      by_cases ha : a.key = key
      · rw [if_pos ha]
        constructor
        · rintro (rfl | hmem)
          · rfl
          · -- the key of `b` stands nowhere else
            exact absurd (mem_map.mpr ⟨a, hmem, ha.trans hkey.symm⟩) hb
        · intro hvalue
          left
          rw [← ha, ← hvalue]
      · rw [if_neg ha, mem_cons]
        constructor
        · rintro (rfl | hmem)
          · exact absurd rfl ha
          · exact .inr hmem
        · rintro (rfl | hmem)
          · exact absurd hkey ha
          · exact .inr hmem
    · rw [if_neg hkey, mem_cons, ih has, mem_cons]
      by_cases ha : a.key = key
      · rw [if_pos ha, if_pos ha]
        constructor
        · rintro (rfl | hvalue)
          · exact absurd ha hkey
          · exact hvalue
        · exact .inr
      · rw [if_neg ha, if_neg ha]

section
variable {attrs mentions : List Attribute} {op : SpanOp}

theorem keys_write (op : SpanOp) (attrs : List Attribute) :
    (keys attrs).Sublist (keys (op.write attrs)) := by
  cases op with
  | setAttribute key value =>
    rw [SpanOp.write, keys_replaceAttribute]
    split_ifs
    · exact List.Sublist.refl _
    · exact sublist_append_left _ _
  | setAttributes new =>
    rw [SpanOp.write, keys_append]
    exact sublist_append_left _ _
  | _ => exact List.Sublist.refl _

theorem IsMap.write (h : IsMap attrs mentions) (hop : op.Fresh (keys mentions)) :
    IsMap (op.write attrs) (mentions ++ op.mentions) := by
  cases op with
  | setAttribute key value =>
    constructor
    · rw [SpanOp.write, keys_replaceAttribute]
      split_ifs with hkey
      · exact h.nodup
      · rw [← concat_eq_append]
        exact h.nodup.concat hkey
    · intro a
      rw [SpanOp.write, mem_replaceAttribute h.nodup, lastValue_append, SpanOp.mentions, lastValue_cons]
      by_cases ha : a.key = key
      · rw [if_pos ha, if_pos ha.symm]
        exact ⟨fun hvalue => by rw [hvalue]; rfl, fun hvalue => (Option.some.inj hvalue).symm⟩
      · rw [if_neg ha, if_neg (Ne.symm ha), h.mem]
        rfl
  | setAttributes new =>
    obtain ⟨hnodup, hfresh⟩ := hop
    have hnew := isMap_self hnodup
    constructor
    · rw [SpanOp.write, keys_append]
      refine nodup_append.mpr ⟨h.nodup, hnodup, ?_⟩
      rintro key hold _ hkey rfl
      exact hfresh key hkey ((h.mem_keys key).mp hold)
    · intro a
      rw [SpanOp.write, SpanOp.mentions, lastValue_append, mem_append, h.mem, hnew.mem]
      by_cases ha : a.key ∈ keys new
      · -- what the call mentions was not mentioned before
        have hnone : lastValue a.key mentions = none := lastValue_eq_none_iff.mpr (hfresh _ ha)
        rw [hnone, Option.or_none]
        simp
      · rw [lastValue_eq_none_iff.mpr ha, Option.none_or]
        simp
  | _ =>
    rw [SpanOp.mentions, append_nil]
    exact h

theorem IsMap.fresh_of_nodup (h : IsMap attrs mentions) (hnodup : (keys (op.write attrs)).Nodup) :
    op.Fresh (keys mentions) := by
  cases op with
  | setAttributes new =>
    rw [SpanOp.write, keys_append] at hnodup
    obtain ⟨-, hnew, hdisjoint⟩ := nodup_append.mp hnodup
    refine ⟨hnew, ?_⟩
    intro key hkey hseen
    exact hdisjoint key ((h.mem_keys key).mpr hseen) key hkey rfl
  | _ => trivial

end

/-! ## 4. Sequences of calls -/

def written (attrs : List Attribute) (ops : List SpanOp) : List Attribute :=
  ops.foldl (fun attrs op => op.write attrs) attrs

theorem keys_written (ops : List SpanOp) (attrs : List Attribute) :
    (keys attrs).Sublist (keys (written attrs ops)) := by
  induction ops generalizing attrs with
  | nil => exact List.Sublist.refl _
  | cons op ops ih => exact (keys_write op attrs).trans (ih (op.write attrs))

theorem isMap_written_iff (ops : List SpanOp) {attrs mentions : List Attribute}
    (h : IsMap attrs mentions) :
    IsMap (written attrs ops) (mentions ++ ops.flatMap SpanOp.mentions) ↔
      FreshBulk (keys mentions) ops := by
  induction ops generalizing attrs mentions with
  | nil =>
    rw [flatMap_nil, append_nil]
    exact ⟨fun _ => trivial, fun _ => h⟩
  | cons op ops ih =>
    rw [flatMap_cons, ← append_assoc, FreshBulk, ← keys_append]
    constructor
    · intro hmap
      have hfresh : op.Fresh (keys mentions) :=
        h.fresh_of_nodup (hmap.nodup.sublist (keys_written ops (op.write attrs)))
      exact ⟨hfresh, (ih (h.write hfresh)).mp hmap⟩
    · rintro ⟨hfresh, hrest⟩
      exact (ih (h.write hfresh)).mpr hrest

/-! ## 5. The calls on a span -/

namespace State

def spanOf (s : State) (k : Nat) : Option Nat := s.handles[k]?.bind fun h => s.owner h.addr

/-- The calls on the `j`-th span that an operation makes.  `Start` gives its attributes to
`SetAttributes`. -/
def callsOf (s : State) (j : Nat) : Op → List SpanOp
  | .start c =>
    if s.handles.length = j ∧ (s.parentContext c.parent).isSome = true then
      [.setAttributes c.attributes]
    else []
  | .use k op => if s.spanOf k = some j then [op] else []
  | .finish _ _ => []

/-- The calls on the `j`-th span along a sequence of operations. -/
def calls (T : Tracer) (j : Nat) : State → List Op → List SpanOp
  | _, [] => []
  | s, op :: ops => s.callsOf j op ++ calls T j (s.exec T op) ops

end State

/-- What the object of a span holds, by the calls on it so far. -/
structure Written (s : State) (past : Nat → List SpanOp) : Prop where
  live : ∀ a j, s.owner a = some j → (s.heap a).attributes = written [] (past j)
  future : ∀ j, s.handles.length ≤ j → past j = []

theorem attributes_apply {span : Span} (h : span.ended = false) (op : SpanOp) :
    (op.apply span).attributes = op.write span.attributes := by
  cases op with
  | recordError err now =>
    cases err with
    | none => rfl
    | some err => simp [SpanOp.apply, Span.recordError, Span.addEvent, Span.setStatus, SpanOp.write, h]
  | setName name => rfl
  | _ =>
    simp [SpanOp.apply, Span.setStatus, Span.setAttribute, Span.setAttributes, Span.addEvent,
      SpanOp.write, h]

section
variable {T : Tracer} {s : State} {past : Nat → List SpanOp}

theorem written_start (hwf : WellFormed s) (hs : Written s past) (c : StartCall) :
    Written (s.start T c) (fun j => past j ++ s.callsOf j (.start c)) := by
  unfold State.start
  cases hparent : s.parentContext c.parent with
  | none =>
    have hsame : (fun j => past j ++ s.callsOf j (.start c)) = past := by
      funext j
      simp [State.callsOf, hparent]
    rw [hsame]
    exact hs
  | some parentSc =>
    constructor
    · intro a j hj
      simp only [update_apply] at hj ⊢
      by_cases ha : a = (s.get c.choice).1
      · -- the new span: no call was made on it before
        rw [if_pos ha] at hj
        obtain rfl := Option.some.inj hj
        rw [if_pos ha, hs.future _ le_rfl]
        simp [State.callsOf, hparent, written, SpanOp.write, State.acquired]
      · rw [if_neg ha] at hj
        obtain ⟨h, hh, -⟩ := hwf.live a j hj
        have hlt : j < s.handles.length := (List.getElem?_eq_some_iff.mp hh).1
        rw [if_neg ha, State.callsOf, if_neg (by omega), append_nil]
        exact hs.live a j hj
    · intro j hj
      rw [length_append, length_singleton] at hj
      rw [hs.future j (by omega), State.callsOf, if_neg (by omega)]
      rfl

theorem written_use (hwf : WellFormed s) (hs : Written s past) (k : Nat) (op : SpanOp) :
    Written (s.use k op) (fun j => past j ++ s.callsOf j (.use k op)) := by
  have hfuture : ∀ j, s.handles.length ≤ j → past j ++ s.callsOf j (.use k op) = [] := by
    intro j hj
    rw [hs.future j hj, State.callsOf, if_neg, append_nil]
    intro hspan
    obtain ⟨h, -, howner⟩ := Option.bind_eq_some_iff.mp hspan
    obtain ⟨h', hh', -⟩ := hwf.live _ _ howner
    exact absurd (List.getElem?_eq_some_iff.mp hh').1 (not_lt.mpr hj)
  refine ⟨?_, fun j hj => hfuture j (by rwa [handles_use] at hj)⟩
  intro a j
  unfold State.use
  cases hh : s.handles[k]? with
  | none =>
    intro hj
    simp only [State.callsOf, State.spanOf, hh, Option.bind_none, reduceCtorEq, if_false, append_nil]
    exact hs.live a j hj
  | some h =>
    intro hj
    simp only [State.callsOf, State.spanOf, hh, Option.bind_some, update_apply] at hj ⊢
    by_cases ha : a = h.addr
    · subst ha
      obtain ⟨-, -, -, -, hended, -⟩ := hwf.live _ _ hj
      rw [if_pos rfl, if_pos hj, attributes_apply hended, hs.live _ _ hj]
      simp [written]
    · -- no other object belongs to the span
      have hother : s.owner h.addr ≠ some j := by
        intro howner
        obtain ⟨h1, hh1, ha1, -⟩ := hwf.live _ _ hj
        obtain ⟨h2, hh2, ha2, -⟩ := hwf.live _ _ howner
        obtain rfl := Option.some.inj (hh1.symm.trans hh2)
        exact ha (ha1.symm.trans ha2)
      rw [if_neg ha, if_neg hother, append_nil]
      exact hs.live a j hj

theorem written_finish (hs : Written s past) (k : Nat) (now : Time) :
    Written (s.finish T k now) (fun j => past j ++ s.callsOf j (.finish k now)) := by
  simp only [State.callsOf, append_nil]
  refine ⟨?_, fun j hj => hs.future j (by rwa [handles_finish] at hj)⟩
  intro a j
  unfold State.finish
  cases hh : s.handles[k]? with
  | none => exact hs.live a j
  | some h =>
    simp only
    split_ifs with hended htracer
    · exact hs.live a j
    · intro hj
      simp only [update_apply]
      split_ifs with ha
      · subst ha
        exact hs.live _ j hj
      · exact hs.live a j hj
    all_goals
      intro hj
      simp only [update_apply] at hj ⊢
      by_cases ha : a = h.addr
      · rw [if_pos ha] at hj
        cases hj
      · rw [if_neg ha] at hj ⊢
        exact hs.live a j hj

theorem written_exec (hwf : WellFormed s) (hs : Written s past) (op : Op) :
    Written (s.exec T op) (fun j => past j ++ s.callsOf j op) := by
  cases op with
  | start c => exact written_start hwf hs c
  | use k op => exact written_use hwf hs k op
  | finish k now => exact written_finish hs k now

theorem written_run (ops : List Op) (hwf : WellFormed s) (hs : Written s past) :
    WellFormed (s.run T ops) ∧ Written (s.run T ops) (fun j => past j ++ s.calls T j ops) := by
  induction ops generalizing s past with
  | nil =>
    simp only [State.calls, append_nil]
    exact ⟨hwf, hs⟩
  | cons op ops ih =>
    obtain ⟨hwf', hs'⟩ := ih (wellFormed_exec hwf op) (written_exec hwf hs op)
    simp only [State.calls, ← append_assoc]
    exact ⟨hwf', hs'⟩

end

/-! ## 6. Results -/

theorem finish_exports {T : Tracer} {s : State} (hwf : WellFormed s) {k : Nat} {now : Time}
    {snap : SpanSnapshot} (h : (s.finish T k now).exported = s.exported ++ [snap]) :
    ∃ a j, s.spanOf k = some j ∧ s.owner a = some j ∧ snap.attributes = (s.heap a).attributes := by
  unfold State.finish at h
  cases hh : s.handles[k]? with
  | none => simp [hh] at h
  | some handle =>
    simp only [hh] at h
    split_ifs at h with hended htracer hexport
    · simp at h
    · simp at h
    · -- an object that has not ended belongs to a span
      obtain ⟨j, hj⟩ : ∃ j, s.owner handle.addr = some j := by
        by_contra hnone
        exact hended (hwf.dead _ (hwf.addr handle (mem_of_getElem? hh))
          (Option.eq_none_iff_forall_ne_some.mpr (not_exists.mp hnone)))
      refine ⟨handle.addr, j, by rw [State.spanOf, hh]; exact hj, hj, ?_⟩
      have hsnap := append_cancel_left h
      rw [← (List.cons.inj hsnap).1]
      rfl
    · simp at h

/-- **The attributes of a span as a map.**  The snapshot that `End` exports holds every key once, with
the value of the last call that mentioned it, exactly if no bulk call on the span, `Start` among
them, mentioned a key twice or one that was mentioned before. -/
theorem exported_isMap_iff (T : Tracer) (ops : List Op) (k : Nat) (now : Time) {snap : SpanSnapshot}
    (h : ((State.run T {} ops).finish T k now).exported = (State.run T {} ops).exported ++ [snap]) :
    ∃ j, (State.run T {} ops).spanOf k = some j ∧
      (IsMap snap.attributes ((State.calls T j {} ops).flatMap SpanOp.mentions) ↔
        FreshBulk [] (State.calls T j {} ops)) := by
  have hnew : Written {} (fun _ => []) := ⟨fun a j hj => (by cases hj), fun _ _ => rfl⟩
  obtain ⟨hwf, hs⟩ := written_run (T := T) ops wellFormed_new hnew
  obtain ⟨a, j, hspan, howner, hattrs⟩ := finish_exports hwf h
  refine ⟨j, hspan, ?_⟩
  rw [hattrs, hs.live a j howner]
  have hempty : IsMap [] [] := isMap_self nodup_nil
  exact isMap_written_iff _ hempty

def getCall (c : StartCall) : StartCall :=
  { c with attributes := [⟨lit "http.request.method", .string (lit "GET")⟩] }

def userOps : List Op :=
  [.start (getCall (call (.remote {}) (lit "HTTP GET") 3 (by decide) none)),
    .use 0 (.setAttributes [⟨lit "user", .string (lit "alice")⟩]),
    .use 0 (.setAttribute (lit "user") (.string (lit "bob")))]

theorem exported_isMap_iff_user :
    ∃ snap, ((State.run recorder {} userOps).finish recorder 0 ⟨2, 0⟩).exported =
        (State.run recorder {} userOps).exported ++ [snap] ∧
      IsMap snap.attributes ((State.calls recorder 0 {} userOps).flatMap SpanOp.mentions) := by
  refine ⟨_, rfl, ?_⟩
  obtain ⟨j, hj, hiff⟩ := exported_isMap_iff recorder userOps 0 ⟨2, 0⟩ rfl
  obtain rfl : 0 = j := Option.some.inj hj
  exact hiff.mpr ⟨⟨by decide, by decide⟩, ⟨by decide, by decide⟩, trivial, trivial⟩

/-- **A bulk call repeats a key**: custom attributes that name the method again leave it twice. -/
theorem attribute_exported_twice :
    let ops := [.start (getCall (call (.remote {}) (lit "HTTP GET") 1 (by decide) none)),
      .use 0 (.setAttributes [⟨lit "http.request.method", .string (lit "POST")⟩]), .finish 0 ⟨2, 0⟩]
    let mentions := (State.calls recorder 0 {} ops).flatMap SpanOp.mentions
    (State.run recorder {} ops).exported.map (·.attributes) =
        [[⟨lit "http.request.method", .string (lit "GET")⟩,
          ⟨lit "http.request.method", .string (lit "POST")⟩]] ∧
      ¬ ∀ snap ∈ (State.run recorder {} ops).exported, IsMap snap.attributes mentions := by
  intro ops mentions
  have hexported : (State.run recorder {} ops).exported.map (·.attributes) =
      [[⟨lit "http.request.method", .string (lit "GET")⟩,
        ⟨lit "http.request.method", .string (lit "POST")⟩]] := by
    decide
  refine ⟨hexported, fun hall => ?_⟩
  obtain ⟨snap, hsnap, hattrs⟩ := mem_map.mp (hexported ▸ mem_singleton_self _)
  have hnodup := (hall snap hsnap).nodup
  rw [hattrs] at hnodup
  exact absurd hnodup (by decide)

end AoniContrib.Otel
