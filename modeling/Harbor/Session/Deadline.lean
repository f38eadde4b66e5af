import Harbor.Session.QueryTimeout

set_option autoImplicit false

/-! # The arithmetic of the deadlines

A timeout in seconds becomes a deadline in three places: `ResolveQueryDeadlineMs`, the constructor of
`QueryExecutionGuard` and that of `QueryTimeoutWatchdog`. Each adds the seconds to the clock in signed
64-bit nanoseconds. `sound_deadline_iff` says for which timeouts that is exact; past them the deadline
lies before the time it should be (`deadline_early`).
-/

namespace Harbor.QueryTimeout

/-! ## The consumers -/

/-- What `TryGetCurrentSetting` gives for `harbor_query_timeout_s`. -/
inductive TimeoutSetting where
  | missing
  | null
  | otherType
  | ubigint (seconds : UInt64)
  deriving DecidableEq, Repr

/-- `ReadQueryTimeoutSeconds`. -/
def readQueryTimeoutSeconds : TimeoutSetting → UInt64
  | .ubigint seconds => seconds
  | .missing | .null | .otherType => 0

/-- `steady_clock::now() + seconds(static_cast<int64_t>(timeout_seconds))`. -/
def deadlineNs (now : Int) (seconds : UInt64) : Int :=
  wrap64 (now + wrap64 (wrap64 seconds.toNat * 1000000000))

/-- `ResolveQueryDeadlineMs`; zero is no deadline. -/
def resolveQueryDeadlineMs (now : Int) (setting : TimeoutSetting) : Int :=
  let seconds := readQueryTimeoutSeconds setting
  if seconds = 0 then 0 else toMillis (deadlineNs now seconds)

/-- The deadline of a `QueryTimeoutWatchdog`; `none` when it is not active. -/
def watchdogDeadline (now : Int) (timeoutSeconds : UInt64) : Option Int :=
  if timeoutSeconds = 0 then none else some (deadlineNs now timeoutSeconds)

/-! ## Two's complement -/

/-- What wrapping gives is in range and differs by a multiple of the modulus. -/
theorem wrap64_spec (x : Int) :
    -2 ^ 63 ≤ wrap64 x ∧ wrap64 x < 2 ^ 63 ∧ ∃ k : Int, wrap64 x = x - 2 ^ 64 * k := by
  have hmod : x % 2 ^ 64 = x - 2 ^ 64 * (x / 2 ^ 64) := by omega
  rw [wrap64, Int.bmod_eq_emod]
  split_ifs with hhigh
  · exact ⟨by omega, by omega, x / 2 ^ 64 + 1, by omega⟩
  · exact ⟨by omega, by omega, x / 2 ^ 64, by omega⟩

theorem wrap64_of_range {x : Int} (hlow : -2 ^ 63 ≤ x) (hhigh : x < 2 ^ 63) : wrap64 x = x := by
  obtain ⟨hlow', hhigh', k, hk⟩ := wrap64_spec x
  omega

/-- Only the last of the three steps decides what comes out. -/
theorem deadlineNs_eq (now : Int) (seconds : UInt64) :
    deadlineNs now seconds = wrap64 (now + seconds.toNat * 1000000000) := by
  rw [deadlineNs, wrap64, wrap64, wrap64, Int.add_bmod_bmod, wrap64]
  exact Int.add_bmod_eq_add_bmod_left _ Int.bmod_mul_bmod

theorem deadlineMs_eq (now : Int) (seconds : UInt64) : deadlineMs now seconds.toNat =
    if seconds = 0 then 0 else toMillis (deadlineNs now seconds) := by
  rw [deadlineMs, deadlineNs]
  by_cases hzero : seconds = 0
  · subst hzero
    rfl
  · have hpos : seconds.toNat > 0 := by
      rw [gt_iff_lt, Nat.pos_iff_ne_zero]
      exact fun h => hzero (UInt64.toNat_inj.mp h)
    rw [if_pos hpos, if_neg hzero]

theorem toMillis_of_nonneg {ns : Int} (h : 0 ≤ ns) : toMillis ns = ns / 1000000 := by
  rw [toMillis, Int.tdiv_eq_ediv_of_nonneg h]

/-- **A deadline that does not fit comes too early**: it is before the time that the seconds ask for. -/
theorem deadline_early {now : Int} {seconds : UInt64}
    (h : 2 ^ 63 ≤ now + seconds.toNat * 1000000000) :
    toMillis (deadlineNs now seconds) < now / 1000000 + 1000 * seconds.toNat := by
  obtain ⟨hlow, hhigh, k, hk⟩ := wrap64_spec (now + seconds.toNat * 1000000000)
  rw [deadlineNs_eq]
  by_cases hsmall : now + seconds.toNat * 1000000000 < 2 ^ 64
  · have hneg : wrap64 (now + seconds.toNat * 1000000000) ≤ 0 := by omega
    have hzero : toMillis (wrap64 (now + seconds.toNat * 1000000000)) ≤ toMillis 0 := toMillis_mono hneg
    have hmillis : toMillis 0 = 0 := rfl
    omega
  · have hle : toMillis (wrap64 (now + seconds.toNat * 1000000000)) ≤ toMillis (2 ^ 63) :=
      toMillis_mono (Int.le_of_lt hhigh)
    have hmillis : toMillis (2 ^ 63) = 9223372036854 := by decide
    omega

/-! ## What a deadline is for -/

/-- The three deadlines that a timeout gives at a time of the clock are what the timeout means. -/
structure SoundDeadline (now : Int) (seconds : UInt64) : Prop where
  /-- No conversion and no addition on the way leaves 64 bits. -/
  exact : seconds ≠ 0 → wrap64 seconds.toNat = seconds.toNat ∧
    wrap64 (seconds.toNat * 1000000000) = seconds.toNat * 1000000000 ∧
    wrap64 (now + seconds.toNat * 1000000000) = now + seconds.toNat * 1000000000
  none_iff : (resolveQueryDeadlineMs now (.ubigint seconds) = 0 ↔ seconds = 0) ∧
    (deadlineMs now seconds.toNat = 0 ↔ seconds = 0) ∧ (watchdogDeadline now seconds = none ↔ seconds = 0)
  atLeast : seconds ≠ 0 →
    now / 1000000 + 1000 * seconds.toNat ≤ resolveQueryDeadlineMs now (.ubigint seconds) ∧
    now / 1000000 + 1000 * seconds.toNat ≤ deadlineMs now seconds.toNat ∧
    ∀ deadline ∈ watchdogDeadline now seconds, now / 1000000 + 1000 * seconds.toNat ≤ deadline / 1000000
  mono : ∀ shorter : UInt64, shorter ≠ 0 → shorter ≤ seconds →
    resolveQueryDeadlineMs now (.ubigint shorter) ≤ resolveQueryDeadlineMs now (.ubigint seconds) ∧
    deadlineMs now shorter.toNat ≤ deadlineMs now seconds.toNat ∧
    ∀ deadline ∈ watchdogDeadline now shorter, ∀ deadline' ∈ watchdogDeadline now seconds,
      deadline ≤ deadline'

/-- A deadline that fits. -/
theorem deadlineNs_of_fits {now : Int} {seconds : UInt64} (hnow : 0 ≤ now)
    (h : now + seconds.toNat * 1000000000 < 2 ^ 63) :
    deadlineNs now seconds = now + seconds.toNat * 1000000000 := by
  rw [deadlineNs_eq]
  exact wrap64_of_range (by omega) h

theorem toNat_pos {seconds : UInt64} (h : seconds ≠ 0) : 0 < seconds.toNat := by
  rw [Nat.pos_iff_ne_zero]
  exact fun hzero => h (UInt64.toNat_inj.mp hzero)

theorem sound_zero (now : Int) : SoundDeadline now 0 := by
  refine ⟨fun h => absurd rfl h, ⟨?_, ?_, ?_⟩, fun h => absurd rfl h, fun shorter hshorter hle => ?_⟩
  · exact iff_of_true rfl rfl
  · exact iff_of_true rfl rfl
  · exact iff_of_true rfl rfl
  · exact absurd (UInt64.le_antisymm hle UInt64.zero_le) hshorter

theorem sound_of_fits {now : Int} {seconds : UInt64} (hnow : 0 ≤ now) (hne : seconds ≠ 0)
    (hfits : now + seconds.toNat * 1000000000 < 2 ^ 63) : SoundDeadline now seconds := by
  have hpos := toNat_pos hne
  -- Shorter timeouts fit as well.
  have hshort : ∀ shorter : UInt64, shorter ≤ seconds →
      deadlineNs now shorter = now + shorter.toNat * 1000000000 := by
    intro shorter hle
    have hnat := UInt64.le_iff_toNat_le.mp hle
    exact deadlineNs_of_fits hnow (by omega)
  have hmillis : ∀ shorter : UInt64, shorter ≤ seconds →
      toMillis (deadlineNs now shorter) = (now + shorter.toNat * 1000000000) / 1000000 := by
    intro shorter hle
    rw [hshort shorter hle, toMillis_of_nonneg (by omega)]
  have hself := hmillis seconds (UInt64.le_refl seconds)
  refine ⟨fun _ => ⟨?_, ?_, ?_⟩, ?_, fun _ => ?_, fun shorter hshorter hle => ?_⟩
  · exact wrap64_of_range (by omega) (by omega)
  · exact wrap64_of_range (by omega) (by omega)
  · exact wrap64_of_range (by omega) hfits
  · rw [resolveQueryDeadlineMs, readQueryTimeoutSeconds, deadlineMs_eq, watchdogDeadline, if_neg hne,
      if_neg hne, hself]
    have hmarker : (now + seconds.toNat * 1000000000) / 1000000 ≠ 0 := by omega
    simp [hne, hmarker]
  · rw [resolveQueryDeadlineMs, readQueryTimeoutSeconds, deadlineMs_eq, watchdogDeadline, if_neg hne,
      if_neg hne, hself]
    refine ⟨by omega, by omega, fun deadline hdeadline => ?_⟩
    obtain rfl := Option.mem_some_iff.mp hdeadline
    rw [hshort seconds (UInt64.le_refl seconds)]
    omega
  · have hnat := UInt64.le_iff_toNat_le.mp hle
    have hle' := hmillis shorter hle
    rw [resolveQueryDeadlineMs, readQueryTimeoutSeconds, deadlineMs_eq, watchdogDeadline,
      resolveQueryDeadlineMs, readQueryTimeoutSeconds, deadlineMs_eq, watchdogDeadline, if_neg hne,
      if_neg hne, if_neg hshorter, if_neg hshorter, hself, hle']
    refine ⟨by omega, by omega, fun deadline hdeadline deadline' hdeadline' => ?_⟩
    obtain rfl := Option.mem_some_iff.mp hdeadline
    obtain rfl := Option.mem_some_iff.mp hdeadline'
    rw [hshort shorter hle, hshort seconds (UInt64.le_refl seconds)]
    omega

/-- **The deadlines are sound exactly when the clock and the seconds together fit into 64 bits.** -/
theorem sound_deadline_iff {now : Int} (hnow : 0 ≤ now) (seconds : UInt64) :
    SoundDeadline now seconds ↔ seconds = 0 ∨ now + seconds.toNat * 1000000000 < 2 ^ 63 := by
  constructor
  · intro h
    by_contra hnot
    rw [not_or, Int.not_lt] at hnot
    have hleast := (h.atLeast hnot.1).1
    rw [resolveQueryDeadlineMs, readQueryTimeoutSeconds, if_neg hnot.1] at hleast
    exact absurd (deadline_early hnot.2) (Int.not_lt.mpr hleast)
  · intro h
    by_cases hzero : seconds = 0
    · subst hzero
      exact sound_zero now
    · exact sound_of_fits hnow hzero (h.resolve_left hzero)

theorem sound_deadline_iff_minutes : SoundDeadline 5000000000 300 :=
  (sound_deadline_iff (by decide) 300).mpr (Or.inr (by decide))

/-- Ten thousand million seconds: the deadline is over before it begins. -/
theorem long_timeout_fires : ¬ SoundDeadline 5000000000 10000000000 ∧
    resolveQueryDeadlineMs 5000000000 (.ubigint 10000000000) < toMillis 5000000000 := by
  refine ⟨fun h => ?_, by decide⟩
  exact absurd (h.atLeast (by decide)).1 (by decide)

end Harbor.QueryTimeout
