/-
# Freshness: what the time checks of `Verify` enforce

`ParseSignatureParams` folds an absent, an unparsable and a zero `created` into one integer, and
`Verify` guards both of its checks on `created` by that integer being positive.  So `MaxAge`, documented
as the maximum age allowed "from the signature's created timestamp", is enforced only on members that
carry a positive one: a member without `created` is accepted at EVERY clock.  The same guard stands
before the check of `expires`.

`Timed` is the exact condition: a member that meets it is fresh whenever it is accepted, and a member
that does not is accepted at some clock where it is not fresh.
-/
import AoniContrib.Go.Instant
import AoniContrib.HttpSig.Verify

namespace AoniContrib.HttpSig

open Go List

variable {params : SignatureParams} {now : Time}

variable (U : Unicode)

/-! ## 1. The parameters a member carries -/

/-- The name and the value of one `;`-separated part, as the loop of `ParseSignatureParams` reads it. -/
def readPair (part : Bytes) : Option (Bytes × Bytes) :=
  let p := trimSpace part
  if p = [] then none
  else (cut equals p).map (fun kv => (toLower U (trimSpace kv.1), stripPair dquote (trimSpace kv.2)))

/-- The parameters behind the inner list of a member, in order. -/
def memberPairs (input : Bytes) : List (Bytes × Bytes) :=
  match cut rparen (trimSpace input) with
  | none => []
  | some (_, rest) => ((trimSpace rest).splitOn semicolon).filterMap (readPair U)

def pairInt (name : Bytes) (pair : Bytes × Bytes) : Option Int64 :=
  if pair.1 = name then
    match parseInt pair.2 with
    | (n, none) => some n
    | _ => none
  else none

/-- The integer the parameters carry under a name: the last that parses. -/
def carriedInt (name : Bytes) (pairs : List (Bytes × Bytes)) : Option Int64 :=
  (pairs.filterMap (pairInt name)).getLast?

def HasParam (name : Bytes) (pairs : List (Bytes × Bytes)) : Prop := ∃ pair ∈ pairs, pair.1 = name

def carriedPairs (ctx : RequestContext) (cfg : VerifyConfig) : List (Bytes × Bytes) :=
  match targetLabel ctx cfg.label with
  | none => []
  | some target => memberPairs U (inputMemberValue ctx target)

theorem readParam_eq (params : SignatureParams) (part : Bytes) : readParam U params part =
      match readPair U part with
      | none => params
      | some pair => setParam params pair.1 pair.2 := by
  unfold readParam readPair
  dsimp only
  split_ifs with h
  · rfl
  · cases cut equals (trimSpace part) <;> rfl

theorem setParam_created (params : SignatureParams) (pair : Bytes × Bytes) :
    (setParam params pair.1 pair.2).created = (pairInt (lit "created") pair).getD params.created := by
  unfold setParam pairInt
  by_cases h : pair.1 = lit "created"
  · rw [if_pos h, if_pos h]
    rcases parseInt pair.2 with ⟨n, _ | _⟩ <;> rfl
  · rw [if_neg h, if_neg h]
    split_ifs <;> try rfl
    rcases parseInt pair.2 with ⟨n, _ | _⟩ <;> rfl

theorem setParam_expires (params : SignatureParams) (pair : Bytes × Bytes) :
    (setParam params pair.1 pair.2).expires = (pairInt (lit "expires") pair).getD params.expires := by
  unfold setParam pairInt
  by_cases h : pair.1 = lit "expires"
  · have hne : pair.1 ≠ lit "created" := by
      rw [h]
      decide
    rw [if_neg hne, if_pos h, if_pos h]
    rcases parseInt pair.2 with ⟨n, _ | _⟩ <;> rfl
  · rw [if_neg h, if_neg h]
    split_ifs <;> try rfl
    rcases parseInt pair.2 with ⟨n, _ | _⟩ <;> rfl

theorem foldl_readParam_field {field : SignatureParams → Int64} {name : Bytes}
    (hset : ∀ params pair, field (setParam params pair.1 pair.2) = (pairInt name pair).getD (field params))
    (parts : List Bytes) (params : SignatureParams) :
    field (parts.foldl (readParam U) params) =
      (carriedInt name (parts.filterMap (readPair U))).getD (field params) := by
  induction parts generalizing params with
  | nil => rfl
  | cons part parts ih =>
    rw [foldl_cons, ih, readParam_eq]
    unfold carriedInt
    cases hread : readPair U part with
    | none => rw [filterMap_cons_none hread]
    | some pair =>
      rw [filterMap_cons_some hread]
      cases hint : pairInt name pair with
      | none => rw [filterMap_cons_none hint, hset, hint, Option.getD_none]
      | some n =>
        rw [filterMap_cons_some hint, hset, hint, Option.getD_some, getLast?_cons, Option.getD_some]

theorem parseSignatureParams_times {input : Bytes}
    (h : parseSignatureParams U input = .ok params) :
    params.created = (carriedInt (lit "created") (memberPairs U input)).getD 0 ∧
      params.expires = (carriedInt (lit "expires") (memberPairs U input)).getD 0 := by
  unfold parseSignatureParams at h
  dsimp only at h
  split at h
  · cases h
  · split at h
    · cases h
    · rename_i list rest hcut
      have hpairs : memberPairs U input =
          ((trimSpace rest).splitOn semicolon).filterMap (readPair U) := by
        rw [memberPairs, hcut]
      cases h
      rw [hpairs]
      by_cases hblank : trimSpace rest = []
      · rw [if_neg (not_not.mpr hblank), hblank]
        exact ⟨rfl, rfl⟩
      · rw [if_pos hblank]
        exact ⟨foldl_readParam_field U setParam_created _ _, foldl_readParam_field U setParam_expires _ _⟩

theorem readSignature_times {ctx : RequestContext} {cfg : VerifyConfig}
    {sig : Bytes} (h : readSignature U ctx cfg.label = .ok (params, sig)) :
    params.created = (carriedInt (lit "created") (carriedPairs U ctx cfg)).getD 0 ∧
      params.expires = (carriedInt (lit "expires") (carriedPairs U ctx cfg)).getD 0 := by
  unfold readSignature at h
  split at h
  · cases h
  · split at h
    · cases h
    · rename_i target ht
      simp only at h
      split at h
      · cases h
      · split at h
        · cases h
        · split at h
          · cases h
          · rename_i parsed hp
            split at h
            · cases h
            · cases h
              rw [carriedPairs, ht]
              obtain ⟨hcreated, hexpires⟩ := parseSignatureParams_times U hp
              exact ⟨hcreated, hexpires⟩

/-! ## 2. The time checks, on the line of nanoseconds -/

/-- The three time checks of `Verify`, as comparisons of instants. -/
structure OnTime (cfg : VerifyConfig) (created expires : Int64) (now : Time) : Prop where
  expiry : 0 < expires → now.nanos ≤ ((Time.unix expires).add cfg.skew).nanos
  future : 0 < created → (Time.unix created).after (now.add cfg.skew) = false
  age : 0 < created → 0 < cfg.maxAge →
    now.nanos - (Time.unix created).nanos ≤ (cfg.maxAge + cfg.skew).toInt ∨
      cfg.maxAge + cfg.skew = Int64.maxValue

/-- The checks of the algorithm, the key id and the tag, which do not read the clock. -/
def Identified (cfg : VerifyConfig) (verifier : Verifier) (params : SignatureParams) : Prop :=
  ¬ (params.alg ≠ [] ∧ params.alg ≠ verifier.algorithm) ∧
    ¬ (params.keyID ≠ [] ∧ verifier.keyID ≠ [] ∧ params.keyID ≠ verifier.keyID) ∧
    ¬ (cfg.requiredTag ≠ [] ∧ params.tag ≠ cfg.requiredTag)

theorem checkPolicy_ok_iff {cfg : VerifyConfig} {verifier : Verifier}
    : checkPolicy cfg verifier params now = .ok () ↔
      Identified cfg verifier params ∧ OnTime cfg params.created params.expires now := by
  have hage : ∀ {created : Int64}, now.sub (Time.unix created) ≤ cfg.maxAge + cfg.skew ↔
      ¬ cfg.maxAge + cfg.skew < now.sub (Time.unix created) := by
    intro created
    rw [Int64.le_iff_toInt_le, Int64.lt_iff_toInt_lt, not_lt]
  unfold checkPolicy
  constructor
  · intro h
    split_ifs at h with h1 h2 h3 h4 h5 h6
    refine ⟨⟨h1, h2, h3⟩, ⟨fun he => ?_, fun hc => ?_, fun hc hm => ?_⟩⟩
    · exact Time.after_eq_false_iff.mp (Bool.eq_false_iff.mpr fun hafter => h4 ⟨he, hafter⟩)
    · exact Bool.eq_false_iff.mpr fun hafter => h5 ⟨hc, hafter⟩
    · exact Time.sub_le_iff.mp (hage.mpr fun hlt => h6 ⟨hc, hm, hlt⟩)
  · rintro ⟨⟨h1, h2, h3⟩, htime⟩
    rw [if_neg h1, if_neg h2, if_neg h3, if_neg, if_neg, if_neg]
    · rintro ⟨hc, hm, hlt⟩
      exact hage.mp (Time.sub_le_iff.mpr (htime.age hc hm)) hlt
    · rintro ⟨hc, hafter⟩
      rw [htime.future hc] at hafter
      cases hafter
    · rintro ⟨he, hafter⟩
      rw [Time.after_eq_false_iff.mpr (htime.expiry he)] at hafter
      cases hafter

variable {ord : Nat → MapOrder} {ctx : RequestContext} {cfg : VerifyConfig}

theorem verify_at {now' : Time}
    (h : verify U ord ctx cfg now = .ok params)
    (htime : OnTime cfg params.created params.expires now') :
    verify U ord ctx cfg now' = .ok params := by
  obtain ⟨verifier, sig, base, hv, hr, hp, hq, hb, hver⟩ := verify_ok U h
  have hp' : checkPolicy cfg verifier params now' = .ok () :=
    checkPolicy_ok_iff.mpr ⟨(checkPolicy_ok_iff.mp hp).1, htime⟩
  simp only [verify, hv, hr, hp', hq, hb, hver, bind, Except.bind]

theorem accepted (h : verify U ord ctx cfg now = .ok params) :
    params.created = (carriedInt (lit "created") (carriedPairs U ctx cfg)).getD 0 ∧
      params.expires = (carriedInt (lit "expires") (carriedPairs U ctx cfg)).getD 0 ∧
      OnTime cfg params.created params.expires now := by
  obtain ⟨verifier, sig, base, -, hr, hp, -, -, -⟩ := verify_ok U h
  obtain ⟨hcreated, hexpires⟩ := readSignature_times U hr
  exact ⟨hcreated, hexpires, (checkPolicy_ok_iff.mp hp).2⟩

/-! ## 3. Fresh members -/

/-- The freshness policy: the member carries a `created` that is neither in the future nor older than
`MaxAge`, and any `expires` it carries has not passed, each up to the skew. -/
structure Fresh (cfg : VerifyConfig) (pairs : List (Bytes × Bytes)) (now : Time) : Prop where
  created : ∃ t, carriedInt (lit "created") pairs = some t ∧
    t.toInt * 1000000000 ≤ now.nanos + cfg.skew.toInt ∧
    now.nanos - t.toInt * 1000000000 ≤ cfg.maxAge.toInt + cfg.skew.toInt
  expires : HasParam (lit "expires") pairs → ∃ t, carriedInt (lit "expires") pairs = some t ∧
    now.nanos ≤ t.toInt * 1000000000 + cfg.skew.toInt

/-- The last instant at which a member with this `expires` passes the check on it. -/
def lastAccepted (cfg : VerifyConfig) (expires : Int64) : Time :=
  if 0 < expires then (Time.unix expires).add cfg.skew else Time.last

/-- The members on which the policy is enforced.  `created` is positive and within the range of
`time.Unix`.  `expires` is positive, or passes no later than the age check fails.  The last field is about
a `MaxAge` of almost three centuries: the bound is then the largest `Duration`, which no saturated
difference exceeds. -/
structure Timed (cfg : VerifyConfig) (pairs : List (Bytes × Bytes)) (c : Int64) : Prop where
  created : carriedInt (lit "created") pairs = some c
  positive : 0 < c
  inRange : Time.InRange c
  expires : HasParam (lit "expires") pairs → ∃ e, carriedInt (lit "expires") pairs = some e ∧
    (0 < e ∨ c.toInt * 1000000000 + (cfg.maxAge + cfg.skew).toInt ≤
      e.toInt * 1000000000 + cfg.skew.toInt)
  bounded : cfg.maxAge + cfg.skew = Int64.maxValue →
    (lastAccepted cfg ((carriedInt (lit "expires") pairs).getD 0)).nanos ≤
      c.toInt * 1000000000 + Int64.maxValue.toInt

theorem skew_pos (cfg : VerifyConfig) : 0 < cfg.skew.toInt := by
  have hminute : Time.minute.toInt = 60000000000 := by decide
  unfold VerifyConfig.skew
  split_ifs with h
  · omega
  · rwa [Int64.le_iff_toInt_le, not_le] at h

theorem toInt_bound {cfg : VerifyConfig} (hmax : 0 < cfg.maxAge.toInt) :
    (cfg.maxAge + cfg.skew).toInt = cfg.maxAge.toInt + cfg.skew.toInt ∨
      (cfg.maxAge + cfg.skew).toInt = cfg.maxAge.toInt + cfg.skew.toInt - 2 ^ 64 ∧
        (cfg.maxAge + cfg.skew).toInt < 0 := by
  have hskew := skew_pos cfg
  have h1 : cfg.maxAge.toInt < 2 ^ 63 := cfg.maxAge.toInt_lt
  have h2 : cfg.skew.toInt < 2 ^ 63 := cfg.skew.toInt_lt
  rw [Int64.toInt_add]
  rcases lt_or_ge (cfg.maxAge.toInt + cfg.skew.toInt) (2 ^ 63) with h | h
  · exact .inl (Int.bmod_eq_of_le (by omega) (by omega))
  · have hwrap : (cfg.maxAge.toInt + cfg.skew.toInt).bmod (2 ^ 64) =
        cfg.maxAge.toInt + cfg.skew.toInt - 2 ^ 64 := by
      rw [← Int.sub_bmod_right]
      exact Int.bmod_eq_of_le (by omega) (by omega)
    exact .inr ⟨hwrap, by omega⟩

/-! ## 4. A member that meets the condition is fresh whenever it is accepted -/

theorem OnTime.le_lastAccepted {c e : Int64} (h : OnTime cfg c e now) :
    now.nanos ≤ (lastAccepted cfg e).nanos := by
  unfold lastAccepted
  split_ifs with he
  · exact h.expiry he
  · exact now.nanos_le_last

theorem fresh_of_timed {pairs : List (Bytes × Bytes)} {c : Int64}
    (hmax : 0 < cfg.maxAge) (h : Timed cfg pairs c)
    (htime : OnTime cfg c ((carriedInt (lit "expires") pairs).getD 0) now) : Fresh cfg pairs now := by
  have hmax' : 0 < cfg.maxAge.toInt := Int64.lt_iff_toInt_lt.mp hmax
  have hskew := skew_pos cfg
  have hunix := Time.nanos_unix h.inRange
  have hfuture : c.toInt * 1000000000 ≤ now.nanos + cfg.skew.toInt := by
    have hadd := Time.nanos_add_le now hskew.le
    have hnot := Time.after_eq_false_iff.mp (htime.future h.positive)
    omega
  -- the age check bounds the clock, by the last accepted instant where its bound is the largest duration
  have hage : now.nanos - c.toInt * 1000000000 ≤ (cfg.maxAge + cfg.skew).toInt := by
    rcases htime.age h.positive hmax with hle | hsum
    · rwa [hunix] at hle
    · have hlast := htime.le_lastAccepted
      have hbounded := h.bounded hsum
      rw [hsum]
      omega
  refine ⟨⟨c, h.created, hfuture, ?_⟩, fun hcarries => ?_⟩
  · rcases toInt_bound hmax' with hsum | ⟨hsum, -⟩ <;> omega
  · obtain ⟨e, he, hpos | hlate⟩ := h.expires hcarries
    · rw [he, Option.getD_some] at htime
      have hexpiry := htime.expiry hpos
      have hadd := Time.nanos_add_le (Time.unix e) hskew.le
      have hle := Time.nanos_unix_le e
      exact ⟨e, he, by omega⟩
    · exact ⟨e, he, by omega⟩

/-! ## 5. A member that does not is accepted where it is not fresh -/

section Necessity

variable {U} {now₀ : Time} {params₀ : SignatureParams} (h₀ : verify U ord ctx cfg now₀ = .ok params₀)
  (hfresh : ∀ now params, verify U ord ctx cfg now = .ok params → Fresh cfg (carriedPairs U ctx cfg) now)
include h₀ hfresh

theorem created_pos : 0 < params₀.created := by
  by_contra hneg
  have hfirst : OnTime cfg params₀.created params₀.expires Time.first :=
    ⟨fun _ => Time.first_le_nanos _, fun h => absurd h hneg, fun h => absurd h hneg⟩
  obtain ⟨t, -, hfuture, -⟩ := (hfresh _ _ (verify_at U h₀ hfirst)).created
  have hlow : -2 ^ 63 ≤ t.toInt := t.le_toInt
  have hskew : cfg.skew.toInt < 2 ^ 63 := cfg.skew.toInt_lt
  have hnanos : Time.first.nanos = (-2 ^ 63 - 62135596800) * 1000000000 := by decide
  omega

theorem created_inRange
    (hcreated : carriedInt (lit "created") (carriedPairs U ctx cfg) = some params₀.created) : Time.InRange params₀.created := by
  by_contra hout
  obtain ⟨-, -, htime⟩ := accepted U h₀
  have hskew := skew_pos cfg
  have hskew' : cfg.skew.toInt < 2 ^ 63 := cfg.skew.toInt_lt
  have hwrap := Time.nanos_unix_of_not hout
  -- no clock up to the wrapped instant is within the skew of `created`
  have hearly : ∀ now params, verify U ord ctx cfg now = .ok params →
      (Time.unix params₀.created).nanos < now.nanos := by
    intro now params h
    obtain ⟨t, ht, hfuture, -⟩ := (hfresh now params h).created
    rw [hcreated, Option.some.injEq] at ht
    subst ht
    omega
  have hlater := hearly now₀ params₀ h₀
  refine lt_irrefl _ (hearly (Time.unix params₀.created) params₀ (verify_at U h₀ ⟨fun he => ?_, fun _ => ?_,
    fun hc hm => ?_⟩))
  · exact (le_of_lt hlater).trans (htime.expiry he)
  · exact Time.unix_not_after_add hskew.le (by omega)
  · rcases htime.age hc hm with hle | hsum
    · exact .inl (by omega)
    · exact .inr hsum

theorem age_bounded (hmax : 0 < cfg.maxAge) (hrange : Time.InRange params₀.created)
    (hcreated : carriedInt (lit "created") (carriedPairs U ctx cfg) = some params₀.created)
    (hsum : cfg.maxAge + cfg.skew = Int64.maxValue) :
    (lastAccepted cfg params₀.expires).nanos ≤
      params₀.created.toInt * 1000000000 + Int64.maxValue.toInt := by
  by_contra hlate
  have hskew := skew_pos cfg
  have hunix := Time.nanos_unix hrange
  have hmaxValue : (0 : Int) < Int64.maxValue.toInt := by decide
  have hlast : OnTime cfg params₀.created params₀.expires (lastAccepted cfg params₀.expires) := by
    refine ⟨fun he => ?_, fun _ => Time.unix_not_after_add hskew.le (by omega), fun _ _ => .inr hsum⟩
    rw [lastAccepted, if_pos he]
  obtain ⟨t, ht, -, hage⟩ := (hfresh _ _ (verify_at U h₀ hlast)).created
  rw [hcreated, Option.some.injEq] at ht
  subst ht
  rcases toInt_bound (Int64.lt_iff_toInt_lt.mp hmax) with heq | ⟨-, hneg⟩
  · rw [hsum] at heq
    omega
  · rw [hsum] at hneg
    omega

theorem expires_timed (hmax : 0 < cfg.maxAge) (hpos : 0 < params₀.created) (hrange : Time.InRange params₀.created)
    (hcarries : HasParam (lit "expires") (carriedPairs U ctx cfg)) :
    ∃ e, carriedInt (lit "expires") (carriedPairs U ctx cfg) = some e ∧
      (0 < e ∨ params₀.created.toInt * 1000000000 + (cfg.maxAge + cfg.skew).toInt ≤
        e.toInt * 1000000000 + cfg.skew.toInt) := by
  obtain ⟨e, he, -⟩ := (hfresh now₀ params₀ h₀).expires hcarries
  obtain ⟨-, hexpires, htime⟩ := accepted U h₀
  rw [he, Option.getD_some] at hexpires
  refine ⟨e, he, or_iff_not_imp_left.mpr fun hneg => ?_⟩
  by_contra hlate
  have hskew := skew_pos cfg
  have hunix := Time.nanos_unix hrange
  have hneg' : e.toInt ≤ 0 := by
    rw [Int64.lt_iff_toInt_lt] at hneg
    exact not_lt.mp hneg
  have hpos' : 0 < params₀.created.toInt := Int64.lt_iff_toInt_lt.mp hpos
  have hfirst : Time.first.nanos = (-2 ^ 63 - 62135596800) * 1000000000 := by decide
  have hlast : Time.last.nanos = (2 ^ 63 - 1 - 62135596800) * 1000000000 + 999999999 := by decide
  have hskew' : cfg.skew.toInt < 2 ^ 63 := cfg.skew.toInt_lt
  have hcreatedLast := (Time.unix params₀.created).nanos_le_last
  -- the acceptance at `now₀` says that the two checks on `created` leave some clock
  have hwindow : 0 ≤ (cfg.maxAge + cfg.skew).toInt + cfg.skew.toInt := by
    have hadd := Time.nanos_add_le now₀ hskew.le
    have hfuture := Time.after_eq_false_iff.mp (htime.future hpos)
    rcases htime.age hpos hmax with hle | hsum
    · omega
    · have hmaxValue : (0 : Int) < Int64.maxValue.toInt := by decide
      rw [hsum]
      omega
  -- the last clock that the age check passes
  obtain ⟨x, hxsum, hxlast, hx⟩ : ∃ x : Int,
      x ≤ params₀.created.toInt * 1000000000 + (cfg.maxAge + cfg.skew).toInt ∧ x ≤ Time.last.nanos ∧
      (x = params₀.created.toInt * 1000000000 + (cfg.maxAge + cfg.skew).toInt ∨ x = Time.last.nanos) :=
    ⟨_, min_le_left _ _, min_le_right _ _, min_choice _ _⟩
  have hnanos : (Time.ofNanos x).nanos = x := Time.nanos_ofNanos (by omega) hxlast
  have hon : OnTime cfg params₀.created params₀.expires (Time.ofNanos x) := by
    refine ⟨fun hp => absurd (hexpires ▸ hp) hneg, fun _ => ?_, fun _ _ => .inl (by omega)⟩
    exact Time.unix_not_after_add hskew.le (by omega)
  obtain ⟨t, ht, hle⟩ := (hfresh _ _ (verify_at U h₀ hon)).expires hcarries
  rw [he, Option.some.injEq] at ht
  subst ht
  omega

end Necessity

/-! ## 6. The policy -/

/-- **When the freshness policy cannot be bypassed.**  A message that some clock accepts is fresh at
every clock that accepts it exactly when the parameters of its member are timed. -/
theorem fresh_iff_timed (hmax : 0 < cfg.maxAge) {now₀ : Time} {params₀ : SignatureParams}
    (h₀ : verify U ord ctx cfg now₀ = .ok params₀) :
    (∀ now params, verify U ord ctx cfg now = .ok params → Fresh cfg (carriedPairs U ctx cfg) now) ↔
      ∃ c, Timed cfg (carriedPairs U ctx cfg) c := by
  constructor
  · intro hfresh
    obtain ⟨hc, he, -⟩ := accepted U h₀
    obtain ⟨t, ht, -⟩ := (hfresh now₀ params₀ h₀).created
    have hcreated : carriedInt (lit "created") (carriedPairs U ctx cfg) = some params₀.created := by
      rw [hc, ht, Option.getD_some]
    have hpos := created_pos h₀ hfresh
    have hrange := created_inRange h₀ hfresh hcreated
    refine ⟨params₀.created, hcreated, hpos, hrange,
      fun hcarries => expires_timed h₀ hfresh hmax hpos hrange hcarries, fun hsum => ?_⟩
    rw [← he]
    exact age_bounded h₀ hfresh hmax hrange hcreated hsum
  · rintro ⟨c, htimed⟩ now params h
    obtain ⟨hc, he, htime⟩ := accepted U h
    rw [htimed.created, Option.getD_some] at hc
    rw [hc, he] at htime
    exact fresh_of_timed hmax htimed htime

namespace Example

/-- A `GET` signed over its method, with these parameters behind the inner list. -/
def signedGet (params : String) : RequestContext :=
  { method := lit "GET",
    header := some ⟨[(headerSignatureInput, [lit "sig1=(\"@method\")" ++ lit params]),
      (headerSignature, [lit "sig1=:" ++ stdEncoding.encode
        (lit "\"@method\": GET\n\"@signature-params\": (\"@method\")" ++ lit params) ++
        [colon]])], (by decide : [headerSignatureInput, headerSignature].Nodup)⟩ }

def lastHour : VerifyConfig := { verifier := some (.transparent []), maxAge := 3600000000000 }

def getParams (created : Int64) : SignatureParams :=
  { label := lit "sig1", components := [lit "\"@method\""], created := created }

end Example

open Example in
/-- A `created` of 1618884473 is held to the hour at every clock. -/
theorem fresh_iff_timed_created :
    verify .ascii (fun _ => .listed) (signedGet ";created=1618884473") lastHour
        (Time.unix 1618884473) = .ok (getParams 1618884473) ∧
      ∀ now params, verify .ascii (fun _ => .listed) (signedGet ";created=1618884473") lastHour now =
        .ok params → Fresh lastHour (carriedPairs .ascii (signedGet ";created=1618884473") lastHour) now := by
  have h : verify .ascii (fun _ => .listed) (signedGet ";created=1618884473") lastHour
      (Time.unix 1618884473) = .ok (getParams 1618884473) := by decide +kernel
  have hpairs : carriedPairs .ascii (signedGet ";created=1618884473") lastHour =
      [(lit "created", lit "1618884473")] := by decide
  refine ⟨h, (fresh_iff_timed .ascii (by decide) h).mpr ?_⟩
  rw [hpairs]
  refine ⟨1618884473, by decide, by decide, by unfold Time.InRange; decide, ?_, by decide⟩
  rintro ⟨pair, hpair, hname⟩
  rw [mem_singleton.mp hpair] at hname
  exact absurd hname (by decide)

open Example in
/-- Without `created` the server accepts the signature in the year 3000. -/
theorem undated_signature_accepted : 0 < lastHour.maxAge ∧
      verify .ascii (fun _ => .listed) (signedGet "") lastHour (Time.unix 32503680000) =
        .ok (getParams 0) ∧
      ¬ Fresh lastHour (carriedPairs .ascii (signedGet "") lastHour) (Time.unix 32503680000) := by
  refine ⟨by decide, by decide +kernel, fun hfresh => ?_⟩
  obtain ⟨t, ht, -⟩ := hfresh.created
  have hnone : carriedInt (lit "created") (carriedPairs .ascii (signedGet "") lastHour) = none := by
    decide
  rw [hnone] at ht
  cases ht

end AoniContrib.HttpSig
