-- SUMMARY: The timeout with which ota_task waits for its next check, against the configured one.
import HomeNode.Lib.Ticks
import Mathlib.Data.Nat.GCD.Basic

/-!
# The check interval

`Kconfig` has an option for the hours between two checks, and `ota_service.c` a
macro for it that nothing uses. `ota_task` waits for `24UL * 60UL * 60UL * 1000UL`
milliseconds, as many ticks as `pdMS_TO_TICKS` makes of them in 32 bits.
-/

namespace HomeNode.Ota

/-- `CONFIG_AUTO_CHECK_DURATION` and `configTICK_RATE_HZ` -/
structure CheckConfig where
  autoCheckDuration : Nat := 24
  tickRateHz : Nat
  deriving DecidableEq

/-- `pdMS_TO_TICKS` -/
def pdMsToTicks (c : CheckConfig) (ms : Nat) : Nat := Ticks.ofMs 32 c.tickRateHz ms

/-- The timeout of the `xSemaphoreTake` that `ota_task` waits in. -/
def startUpdateTimeout (c : CheckConfig) : Nat := pdMsToTicks c (24 * 60 * 60 * 1000)

/-- The ticks of the configured hours. -/
def configuredTicks (c : CheckConfig) : Nat := c.autoCheckDuration * 3600 * c.tickRateHz

/-- The task waits for as long as is configured. -/
def WaitsAsConfigured (c : CheckConfig) : Prop := startUpdateTimeout c = configuredTicks c

/-- A day is configured, at a rate of less than 50 ticks a second. The other cases are none at
all, with a rate whose product with the milliseconds of a day wraps to zero, and no ticks. -/
def SlowDay (c : CheckConfig) : Prop :=
  (c.autoCheckDuration = 24 ∧ c.tickRateHz < 50) ∨
    (c.autoCheckDuration = 0 ∧ 2 ^ 22 ∣ c.tickRateHz) ∨ c.tickRateHz = 0

instance (c : CheckConfig) : Decidable (WaitsAsConfigured c) :=
  inferInstanceAs (Decidable (startUpdateTimeout c = configuredTicks c))

theorem startUpdateTimeout_eq (c : CheckConfig) :
    startUpdateTimeout c = 86400000 * c.tickRateHz % 2 ^ 32 / 1000 := by
  rw [startUpdateTimeout, pdMsToTicks, Ticks.ofMs]

theorem startUpdateTimeout_le (c : CheckConfig) : startUpdateTimeout c ≤ 4294967 := Ticks.ofMs_le

/-- A day comes out right exactly at a rate of less than 50 ticks a second. -/
theorem startUpdateTimeout_eq_day_iff (c : CheckConfig) :
    startUpdateTimeout c = 86400 * c.tickRateHz ↔ c.tickRateHz < 50 := by
  have hday := @Ticks.ofMs_seconds_iff 32 c.tickRateHz 86400
  rw [startUpdateTimeout, pdMsToTicks, show 24 * 60 * 60 * 1000 = 1000 * 86400 by rfl, hday]
  omega

/-- What is cut off a product is a multiple of a word, and no product that is large enough to
be cut lies as close above one as the timeout of another duration needs. -/
theorem word_multiples : ∀ k < 23, ∀ e < 8, 28125 ∣ 2 ^ 25 * k + e → k = 0 ∧ e = 0 := by
  decide +kernel

/-- A duration of less than a day does not come out at a rate that keeps it below the
largest timeout. -/
theorem startUpdateTimeout_ne {c : CheckConfig} (hpos : 0 < c.autoCheckDuration)
    (hday : c.autoCheckDuration < 24) (hhz : 0 < c.tickRateHz)
    (hle : c.autoCheckDuration * c.tickRateHz ≤ 1193) :
    startUpdateTimeout c ≠ configuredTicks c := by
  intro heq
  obtain ⟨h, hz⟩ := c
  simp only at hpos hday hhz hle
  have hrate : hz ≤ h * hz := Nat.le_mul_of_pos_left hz hpos
  -- the hours that are missing to a day, in the same unit
  obtain ⟨m, hm⟩ : ∃ m, m = (24 - h) * hz := ⟨_, rfl⟩
  have hrest : m + h * hz = 24 * hz := by
    rw [hm, ← Nat.add_mul, Nat.sub_add_cancel hday.le]
  have hmpos : 0 < m := by
    rw [hm]
    exact Nat.mul_pos (by omega) hhz
  have hcut := Nat.div_add_mod (86400000 * hz) (2 ^ 32)
  have htail := Nat.div_add_mod (86400000 * hz % 2 ^ 32) 1000
  have hsmall := Nat.mod_lt (86400000 * hz % 2 ^ 32) (show 0 < 1000 by decide)
  have hticks : 86400000 * hz % 2 ^ 32 / 1000 = 3600 * (h * hz) := by
    rw [Nat.mul_left_comm 3600 h hz, ← Nat.mul_assoc]
    exact heq
  have hwords : 28125 * m = 2 ^ 25 * (86400000 * hz / 2 ^ 32) +
      86400000 * hz % 2 ^ 32 % 1000 / 128 := by omega
  have hfew : 86400000 * hz / 2 ^ 32 < 23 := by omega
  have hnone := word_multiples _ hfew _ (by omega) (Dvd.intro m hwords)
  omega

/-- No wait is configured: the milliseconds of a day have to wrap to zero. -/
theorem startUpdateTimeout_eq_zero_iff (c : CheckConfig) :
    startUpdateTimeout c = 0 ↔ 2 ^ 22 ∣ c.tickRateHz := by
  have hodd : Nat.Coprime (2 ^ 22) 84375 := by decide +kernel
  have hdvd : 2 ^ 22 ∣ 84375 * c.tickRateHz ↔ 2 ^ 22 ∣ c.tickRateHz :=
    Nat.Coprime.dvd_mul_left hodd
  have hword : 86400000 * c.tickRateHz % 2 ^ 32 = 1024 * (84375 * c.tickRateHz % 2 ^ 22) := by
    omega
  rw [startUpdateTimeout_eq, hword, ← hdvd, Nat.dvd_iff_mod_eq_zero]
  -- a multiple of 1024 that is less than 1000 is none
  generalize 84375 * c.tickRateHz % 2 ^ 22 = r
  omega

/-- Where the configured hours fit into a word of ticks, the task waits for them exactly at
a slow day. -/
theorem waitsAsConfigured_iff (c : CheckConfig) (hfit : configuredTicks c < 2 ^ 32) :
    WaitsAsConfigured c ↔ SlowDay c := by
  rcases Nat.eq_zero_or_pos c.tickRateHz with hhz | hhz
  · have hstop : WaitsAsConfigured c := by
      simp [WaitsAsConfigured, startUpdateTimeout, pdMsToTicks, Ticks.ofMs, configuredTicks, hhz]
    exact iff_of_true hstop (.inr (.inr hhz))
  rcases Nat.eq_zero_or_pos c.autoCheckDuration with hdur | hpos
  · have hzero : configuredTicks c = 0 := by simp [configuredTicks, hdur]
    rw [WaitsAsConfigured, hzero, startUpdateTimeout_eq_zero_iff, SlowDay]
    omega
  by_cases hday : c.autoCheckDuration = 24
  · have hticks : configuredTicks c = 86400 * c.tickRateHz := by simp [configuredTicks, hday]
    rw [WaitsAsConfigured, hticks, startUpdateTimeout_eq_day_iff, SlowDay]
    omega
  have hfast : ¬ SlowDay c := by
    rw [SlowDay]
    omega
  refine iff_of_false ?_ hfast
  intro hwaits
  by_cases hslow : c.tickRateHz < 50
  · -- the wait is a day, and a day is not what is configured
    have hsame := ((startUpdateTimeout_eq_day_iff c).mpr hslow).symm.trans hwaits
    have hdur := Nat.eq_of_mul_eq_mul_right hhz hsame
    omega
  · have hle : configuredTicks c ≤ 4294967 := hwaits ▸ startUpdateTimeout_le c
    have hticks : configuredTicks c = 3600 * (c.autoCheckDuration * c.tickRateHz) := by
      rw [configuredTicks]
      ring
    have hprod : c.autoCheckDuration * 50 ≤ c.autoCheckDuration * c.tickRateHz :=
      Nat.mul_le_mul_left _ (by omega)
    exact startUpdateTimeout_ne hpos (by omega) hhz (by omega) hwaits

theorem waitsAsConfigured_slowDay :
    configuredTicks { tickRateHz := 49 } < 2 ^ 32 ∧ WaitsAsConfigured { tickRateHz := 49 } := by
  have hfit : configuredTicks { tickRateHz := 49 } < 2 ^ 32 := by decide
  exact ⟨hfit, (waitsAsConfigured_iff _ hfit).mpr (.inl ⟨rfl, by decide⟩)⟩

/-- At 100 ticks a second the default of a day is a wait of 50065 ticks, and at 10 ticks a
second twelve hours are a day. -/
theorem not_waitsAsConfigured :
    ¬ WaitsAsConfigured { tickRateHz := 100 } ∧
      ¬ WaitsAsConfigured { autoCheckDuration := 12, tickRateHz := 10 } := by
  decide +kernel

end HomeNode.Ota
