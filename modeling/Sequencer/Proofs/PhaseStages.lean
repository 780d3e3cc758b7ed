import Mathlib.Data.Prod.Lex
import Sequencer.Assembly.Quantize
import Sequencer.Proofs.Success

/-!
# Stages of a phase

A phase register takes a tick count in three stages. The weights of the stages come from two
divisions, of the turn by the depth of the lookup tables and of the quotient by the depth again, and
both drop a remainder. So a coarse step need not be a whole number of fine ones, and a turn need not
be a whole number of coarse ones.

It is a representation all the same. As long as no weight is zero, a tick count has one triple of
stages that leaves less than a coarse step to the two lower stages and less than a fine step to the
lowest, and triples are ordered as the tick counts are. What the remainders do cost is the range of
the upper stages. If the turn is divided without remainder twice, both stay below the depth of their
table throughout a turn, and otherwise one of them reaches it.

## Main definitions

* `Phase.Represents` — the stages stand for a tick count, with no stage overfull
* `Phase.rank` — stages in lexicographic order

## Main results

* `Phase.represents_iff` — every tick count has its stages, and no others
* `Phase.strictMono_rank_stages` — stages are ordered as tick counts are
* `Phase.forall_stages_lt_iff` — when the upper stages stay below the depth of their tables
* `Phase.mixed_radix` — the stages are the mixed-radix representation of a tick count
-/

namespace Sequencer

/-! ## Weights -/

theorem Traits.fineFactor_pos {t : Traits} (hdepth : 1 ≤ t.lutDepth)
    (hturn : t.lutDepth * t.lutDepth ≤ t.fullTurn) : 0 < t.fineFactor := by
  have hcoarse : t.lutDepth ≤ t.coarseFactor := (Nat.le_div_iff_mul_le hdepth).mpr hturn
  exact Nat.div_pos hcoarse hdepth

/-- Counting in steps of a truncated quotient stays below the divisor exactly if nothing was
truncated. -/
theorem forall_div_lt_iff_dvd {whole parts : Nat} (hpos : 0 < whole / parts) :
    (∀ n < whole, n / (whole / parts) < parts) ↔ parts ∣ whole := by
  constructor
  · intro h
    have hwhole : 0 < whole := Nat.pos_of_div_pos hpos
    -- the last number of the whole is where a remainder shows
    have hlast : whole - 1 < parts * (whole / parts) :=
      (Nat.div_lt_iff_lt_mul hpos).mp (h (whole - 1) (by omega))
    have hle : parts * (whole / parts) ≤ whole := Nat.mul_div_le whole parts
    exact ⟨whole / parts, by omega⟩
  · intro h n hn
    refine Nat.div_lt_of_lt_mul ?_
    rwa [Nat.div_mul_cancel h]

namespace Phase

variable {t : Traits} {n : Nat} {p : Phase}

/-! ## Representation -/

/-- The stages stand for `n` ticks, the two lower ones for less than a coarse step and the lowest
for less than a fine step. -/
structure Represents (t : Traits) (p : Phase) (n : Nat) : Prop where
  ticks : p.coarse * t.coarseFactor + p.fine * t.fineFactor + p.ultrafine = n
  rest_lt : p.fine * t.fineFactor + p.ultrafine < t.coarseFactor
  ultrafine_lt : p.ultrafine < t.fineFactor

theorem represents_stages (h : 0 < t.fineFactor) (n : Nat) : (stages t n).Represents t n where
  ticks := ticks_stages t n
  rest_lt := by
    show n % t.coarseFactor / t.fineFactor * t.fineFactor + n % t.coarseFactor % t.fineFactor
      < t.coarseFactor
    rw [Nat.div_add_mod']
    exact Nat.mod_lt _ (Traits.coarseFactor_pos_of_fineFactor_pos h)
  ultrafine_lt := Nat.mod_lt _ h

/-- Two divisions take the stages apart again. -/
theorem Represents.eq_stages (h : p.Represents t n) : p = stages t n := by
  have hfine : 0 < t.fineFactor := Nat.zero_lt_of_lt h.ultrafine_lt
  have hcoarse : 0 < t.coarseFactor := Traits.coarseFactor_pos_of_fineFactor_pos hfine
  have hsum : p.fine * t.fineFactor + p.ultrafine + t.coarseFactor * p.coarse = n := by
    rw [Nat.mul_comm t.coarseFactor, Nat.add_comm, ← Nat.add_assoc]
    exact h.ticks
  obtain ⟨hdiv, hmod⟩ := (Nat.div_mod_unique hcoarse).mpr ⟨hsum, h.rest_lt⟩
  have hrest : p.ultrafine + t.fineFactor * p.fine = n % t.coarseFactor := by
    rw [hmod, Nat.mul_comm, Nat.add_comm]
  obtain ⟨hdiv', hmod'⟩ := (Nat.div_mod_unique hfine).mpr ⟨hrest, h.ultrafine_lt⟩
  cases p
  rw [stages, hdiv, hdiv', hmod']

/-- **Every tick count has its stages, and no others.** -/
theorem represents_iff (h : 0 < t.fineFactor) : p.Represents t n ↔ p = stages t n :=
  ⟨Represents.eq_stages, fun hp => hp ▸ represents_stages h n⟩

/-! ## Order -/

/-- The stages in the order in which they are compared. -/
def rank (p : Phase) : ℕ ×ₗ ℕ ×ₗ ℕ := toLex (p.coarse, toLex (p.fine, p.ultrafine))

theorem rank_lt_rank_iff {p q : Phase} :
    p.rank < q.rank ↔
      p.coarse < q.coarse ∨ p.coarse = q.coarse ∧
        (p.fine < q.fine ∨ p.fine = q.fine ∧ p.ultrafine < q.ultrafine) := by
  rw [rank, rank, Prod.Lex.toLex_lt_toLex, Prod.Lex.toLex_lt_toLex]

/-- Of two numbers the smaller has the smaller quotient, or the same quotient and the smaller
remainder. -/
theorem quotient_lt_or {a b : Nat} (h : a < b) (k : Nat) :
    a / k < b / k ∨ a / k = b / k ∧ a % k < b % k := by
  rcases Nat.lt_or_eq_of_le (Nat.div_le_div_right h.le : a / k ≤ b / k) with hlt | heq
  · exact Or.inl hlt
  · refine Or.inr ⟨heq, ?_⟩
    have ha := Nat.div_add_mod a k
    have hb := Nat.div_add_mod b k
    rw [heq] at ha
    omega

/-- **Stages are ordered as tick counts are**, whatever the weights. -/
theorem strictMono_rank_stages (t : Traits) : StrictMono fun n => (stages t n).rank := by
  intro a b hab
  rcases quotient_lt_or hab t.coarseFactor with hcoarse | ⟨hcoarse, hrest⟩
  · exact rank_lt_rank_iff.mpr (Or.inl hcoarse)
  · exact rank_lt_rank_iff.mpr (Or.inr ⟨hcoarse, quotient_lt_or hrest t.fineFactor⟩)

/-! ## Range -/

/-- **When the upper stages stay below the depth of their tables:** if the depth divides the turn
twice. -/
theorem forall_stages_lt_iff (h : 0 < t.fineFactor) :
    (∀ n < t.fullTurn, (stages t n).coarse < t.lutDepth ∧ (stages t n).fine < t.lutDepth) ↔
      t.lutDepth * t.lutDepth ∣ t.fullTurn := by
  have hcoarse := Traits.coarseFactor_pos_of_fineFactor_pos h
  constructor
  · intro hlt
    have hturn : t.lutDepth ∣ t.fullTurn := (forall_div_lt_iff_dvd hcoarse).mp fun n hn =>
      (hlt n hn).1
    refine Nat.mul_dvd_of_dvd_div hturn ((forall_div_lt_iff_dvd h).mp fun n hn => ?_)
    -- below one coarse step, the fine stage counts alone
    have hfine := (hlt n (Nat.lt_of_lt_of_le hn (Nat.div_le_self _ _))).2
    rwa [stages, Nat.mod_eq_of_lt hn] at hfine
  · intro hdvd n hn
    refine ⟨(forall_div_lt_iff_dvd hcoarse).mpr
      (Nat.dvd_trans (Nat.dvd_mul_right _ _) hdvd) n hn, ?_⟩
    exact (forall_div_lt_iff_dvd h).mpr (Nat.dvd_div_of_mul_dvd hdvd) _ (Nat.mod_lt n hcoarse)

/-! ## Results of the conversions -/

theorem ofTicks_eq_stages (h : t.ResolvesPhase) (n : Nat) : ofTicks t n = .ok (stages t n) :=
  if_pos h

/-- Every angle, a number or not, is less than a turn of ticks. -/
theorem exists_ofDegrees_eq_stages (h : t.ResolvesPhase) (degrees : Float) :
    ∃ n < t.fullTurn, ofDegrees t degrees = .ok (stages t n) := by
  have hturn : 0 < t.fullTurn := Traits.fullTurn_pos_of_fineFactor_pos h.2
  have hticks : ticksOfDegrees t.fullTurn degrees = .ok _ := if_neg hturn.ne'
  exact ⟨_, Nat.mod_lt _ hturn, bind_eq_ok.mpr ⟨_, hticks, ofTicks_eq_stages h _⟩⟩

/-- The operands of a module are in range for every angle. -/
theorem exists_ofDegrees_controlModule (degrees : Float) :
    ∃ p, ofDegrees .controlModule degrees = .ok p ∧ p.coarse < 400 ∧ p.fine < 400 ∧
      p.ultrafine < 6250 := by
  obtain ⟨n, hn, hp⟩ := exists_ofDegrees_eq_stages Traits.resolvesPhase_controlModule degrees
  have hfine := Traits.resolvesPhase_controlModule.2
  obtain ⟨hcoarse, hstage⟩ := (forall_stages_lt_iff hfine).mpr (by decide) n hn
  have hlowest := (represents_stages hfine n).ultrafine_lt
  rw [Traits.fineFactor_controlModule] at hlowest
  exact ⟨_, hp, hcoarse, hstage, hlowest⟩

/-- **The stages are the mixed-radix representation of a tick count.** If the turn fits in a
register and has at least a tick for each pair of coarse and fine steps, no weight is zero and the
conversion succeeds for every tick count. Its result is the only triple that represents the tick
count, and it grows with it. Throughout a turn the upper stages are below the depth of the tables if
the square of the depth divides the turn, and only then. Both modules are of this kind, so they have
operands in range for every angle. -/
theorem mixed_radix :
    (∀ t : Traits, 1 ≤ t.lutDepth → t.lutDepth * t.lutDepth ≤ t.fullTurn →
      t.fullTurn < 18446744073709551616 →
      0 < t.coarseFactor ∧ 0 < t.fineFactor ∧ (∀ n, ofTicks t n = .ok (stages t n)) ∧
      (∀ n p, Represents t p n ↔ p = stages t n) ∧ (StrictMono fun n => (stages t n).rank) ∧
      ((∀ n < t.fullTurn, (stages t n).coarse < t.lutDepth ∧ (stages t n).fine < t.lutDepth) ↔
        t.lutDepth * t.lutDepth ∣ t.fullTurn)) ∧
    ∀ t ∈ [Traits.controlModule, Traits.readoutModule], ∀ degrees, ∃ p,
      ofDegrees t degrees = .ok p ∧ p.coarse < 400 ∧ p.fine < 400 ∧ p.ultrafine < 6250 := by
  constructor
  · intro t hdepth hturn hword
    have hfine := Traits.fineFactor_pos hdepth hturn
    exact ⟨Traits.coarseFactor_pos_of_fineFactor_pos hfine, hfine, ofTicks_eq_stages ⟨hword, hfine⟩,
      fun n p => represents_iff hfine, strictMono_rank_stages t, forall_stages_lt_iff hfine⟩
  · intro t ht degrees
    -- the two modules have the same numbers
    obtain rfl : t = .controlModule := by
      rcases List.mem_cons.mp ht with rfl | ht
      · rfl
      · exact List.mem_singleton.mp ht
    exact exists_ofDegrees_controlModule degrees

/-- A turn of a million ticks in tables of three: the coarse stage of the last tick is out of
range. -/
def tripled :
    Traits := { Traits.controlModule with samplePathWidth := 1, clockMegahertz := 1, lutDepth := 3 }

theorem mixed_radix_tripled :
    ofTicks tripled 999999 = .ok ⟨3, 0, 0⟩ ∧ (∀ p, Represents tripled p 999999 ↔ p = ⟨3, 0, 0⟩) ∧
      ¬ ∀ n < tripled.fullTurn,
        (stages tripled n).coarse < tripled.lutDepth ∧
          (stages tripled n).fine < tripled.lutDepth := by
  obtain ⟨-, -, hticks, hunique, -, hrange⟩ :=
    mixed_radix.1 tripled (by decide) (by decide) (by decide)
  refine ⟨hticks 999999, fun p => hunique 999999 p, ?_⟩
  rw [hrange]
  decide

end Phase

end Sequencer
