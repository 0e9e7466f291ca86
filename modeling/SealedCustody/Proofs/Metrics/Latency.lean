import SealedCustody.Metrics
import Mathlib.Algebra.Order.BigOperators.Group.List
import Mathlib.Algebra.Order.Ring.Nat
import Mathlib.Tactic.Ring

/-!
# Round-trip times

A span is known by its nanoseconds (`Span.inNanos_injective`), and the order of spans is that of their
nanoseconds (`Span.atMost_iff`). The running sum always stands for the sum of what was added, however much
of it was carried, and it fails to come about just when the sum is past the range of a span
(`Span.sum?_spec`). The quotient by a number of 32 bits always comes about, and is the floor of the exact
one (`Span.exists_div?`).

So there is a summary whenever a round-trip time is known and the sum is in range, with the average rounded
down and between the smallest and the largest (`NetworkMetrics.latencyStats_exact`).
-/

namespace SealedCustody

namespace Span

variable {s t : Span} {spans : List Span}

/-- The nanoseconds of a span. -/
def inNanos (s : Span) : Nat := s.seconds * perSecond + s.nanos

/-- The nanoseconds of some spans together. -/
def total (spans : List Span) : Nat := (spans.map inNanos).sum

/-- The first number of nanoseconds past the range of a span. -/
def pastRange : Nat := limit * perSecond

theorem perSecond_eq : perSecond = 1000000000 := rfl

theorem pastRange_le_iff {n : Nat} : pastRange ≤ n ↔ limit ≤ n / perSecond :=
  (Nat.le_div_iff_mul_le (by decide)).symm

theorem inNanos_injective : Function.Injective inNanos := by
  intro s t h
  have hs := s.nanos_lt
  have ht := t.nanos_lt
  unfold inNanos at h
  rw [perSecond_eq] at h hs ht
  have hseconds : s.seconds = t.seconds := by omega
  have hnanos : s.nanos = t.nanos := by omega
  cases s
  cases t
  congr

/-! ## Order -/

theorem atMost_iff : s.atMost t = true ↔ s.inNanos ≤ t.inNanos := by
  have hs := s.nanos_lt
  have ht := t.nanos_lt
  unfold atMost inNanos
  rw [Bool.or_eq_true, Bool.and_eq_true, decide_eq_true_eq, decide_eq_true_eq, beq_iff_eq]
  rw [perSecond_eq] at hs ht ⊢
  omega

/-- The shorter of two spans is one of them, and no longer than either. -/
theorem min_spec (s t : Span) :
    (s.min t = s ∨ s.min t = t) ∧ (s.min t).inNanos ≤ s.inNanos ∧ (s.min t).inNanos ≤ t.inNanos := by
  unfold min
  split
  · rename_i h
    exact ⟨Or.inl rfl, le_rfl, atMost_iff.1 h⟩
  · rename_i h
    rw [atMost_iff] at h
    exact ⟨Or.inr rfl, by omega, le_rfl⟩

/-- The longer of two spans is one of them, and no shorter than either. -/
theorem max_spec (s t : Span) :
    (s.max t = s ∨ s.max t = t) ∧ s.inNanos ≤ (s.max t).inNanos ∧ t.inNanos ≤ (s.max t).inNanos := by
  unfold max
  split
  · rename_i h
    exact ⟨Or.inr rfl, atMost_iff.1 h, le_rfl⟩
  · rename_i h
    rw [atMost_iff] at h
    exact ⟨Or.inl rfl, le_rfl, by omega⟩

/-- Where choosing between two comes out before both, choosing one after the other comes out before all. -/
theorem foldl_choice {f : Span → Span → Span} {R : Span → Span → Prop} (hrefl : ∀ s, R s s)
    (htrans : ∀ s t u, R s t → R t u → R s u)
    (hf : ∀ s t, (f s t = s ∨ f s t = t) ∧ R (f s t) s ∧ R (f s t) t) (s : Span) (rest : List Span) :
    rest.foldl f s ∈ s :: rest ∧ ∀ t ∈ s :: rest, R (rest.foldl f s) t := by
  induction rest generalizing s with
  | nil => exact ⟨List.mem_cons_self, fun t ht => List.mem_singleton.1 ht ▸ hrefl s⟩
  | cons next rest ih =>
    obtain ⟨hmem, hbefore⟩ := ih (f s next)
    obtain ⟨hone, hs, hnext⟩ := hf s next
    have hfirst := hbefore _ List.mem_cons_self
    rw [List.foldl_cons]
    constructor
    · rcases List.mem_cons.1 hmem with h | h
      · rw [h]
        rcases hone with hone | hone <;> simp [hone]
      · exact List.mem_cons_of_mem _ (List.mem_cons_of_mem _ h)
    · rw [List.forall_mem_cons, List.forall_mem_cons]
      exact ⟨htrans _ _ _ hfirst hs, htrans _ _ _ hfirst hnext,
        fun t ht => hbefore t (List.mem_cons_of_mem _ ht)⟩

/-- The shortest of some spans is one of them, and no longer than any. -/
theorem foldl_min_spec (s : Span) (rest : List Span) :
    rest.foldl min s ∈ s :: rest ∧ ∀ t ∈ s :: rest, (rest.foldl min s).inNanos ≤ t.inNanos :=
  foldl_choice (R := fun s t => s.inNanos ≤ t.inNanos) (fun _ => le_rfl) (fun _ _ _ => le_trans)
    min_spec s rest

/-- The longest of some spans is one of them, and no shorter than any. -/
theorem foldl_max_spec (s : Span) (rest : List Span) :
    rest.foldl max s ∈ s :: rest ∧ ∀ t ∈ s :: rest, t.inNanos ≤ (rest.foldl max s).inNanos :=
  foldl_choice (R := fun s t => t.inNanos ≤ s.inNanos) (fun _ => le_rfl)
    (fun _ _ _ hst htu => le_trans htu hst) max_spec s rest

/-! ## Sums -/

theorem word?_of_lt {n : Nat} (h : n < limit) : word? n = some n := if_pos h

theorem word?_of_le {n : Nat} (h : limit ≤ n) : word? n = none := if_neg (Nat.not_lt.2 h)

namespace Tally

/-- The nanoseconds that a sum stands for. -/
def inNanos (u : Tally) : Nat := u.seconds * perSecond + u.nanos

/-- Adding a span adds its nanoseconds, whether something is carried or not, and fails only if that would
bring the sum past the range. -/
theorem add?_spec (u : Tally) (s : Span) :
    (∃ v, u.add? s = some v ∧ v.inNanos = u.inNanos + s.inNanos) ∨
      u.add? s = none ∧ pastRange ≤ u.inNanos + s.inNanos := by
  rw [pastRange_le_iff]
  unfold add? inNanos Span.inNanos
  rcases Nat.lt_or_ge (u.seconds + s.seconds) limit with hseconds | hseconds
  · rw [word?_of_lt hseconds, Option.bind_some]
    rcases Nat.lt_or_ge (u.nanos + s.nanos) limit with hnanos | hnanos
    · rw [word?_of_lt hnanos]
      refine Or.inl ⟨_, rfl, ?_⟩
      dsimp only
      rw [perSecond_eq]
      omega
    · rw [word?_of_le hnanos]
      rcases Nat.lt_or_ge (u.seconds + s.seconds + u.nanos / perSecond) limit with hcarried | hcarried
      · rw [word?_of_lt hcarried]
        refine Or.inl ⟨_, rfl, ?_⟩
        dsimp only
        rw [perSecond_eq]
        omega
      · rw [word?_of_le hcarried]
        refine Or.inr ⟨rfl, hcarried.trans ?_⟩
        rw [perSecond_eq]
        omega
  · rw [word?_of_le hseconds]
    refine Or.inr ⟨rfl, hseconds.trans ?_⟩
    rw [perSecond_eq]
    omega

/-- Adding spans one after another. -/
theorem foldlM_add?_spec (u : Tally) (spans : List Span) :
    (∃ v, spans.foldlM add? u = some v ∧ v.inNanos = u.inNanos + total spans) ∨
      spans.foldlM add? u = none ∧ pastRange ≤ u.inNanos + total spans := by
  induction spans generalizing u with
  | nil => exact Or.inl ⟨u, rfl, (Nat.add_zero _).symm⟩
  | cons s rest ih =>
    rw [List.foldlM_cons, total, List.map_cons, List.sum_cons, ← Nat.add_assoc]
    rcases add?_spec u s with ⟨v, hv, hsum⟩ | ⟨hnone, hpast⟩
    · rw [hv, ← hsum]
      exact ih v
    · -- what is past the range remains so with the spans that were not reached
      rw [hnone]
      exact Or.inr ⟨rfl, hpast.trans (Nat.le_add_right ..)⟩

/-- A sum comes to a span of as many nanoseconds, if it is in range. -/
theorem total?_spec (u : Tally) :
    (∃ t, u.total? = some t ∧ t.inNanos = u.inNanos ∧ u.inNanos < pastRange) ∨
      u.total? = none ∧ pastRange ≤ u.inNanos := by
  have hseconds : u.inNanos / perSecond = u.seconds + u.nanos / perSecond := by
    unfold inNanos
    rw [perSecond_eq]
    omega
  rw [← Nat.not_le, pastRange_le_iff, hseconds, Nat.not_le]
  unfold total?
  rcases Nat.lt_or_ge (u.seconds + u.nanos / perSecond) limit with h | h
  · rw [word?_of_lt h]
    refine Or.inl ⟨_, rfl, ?_, h⟩
    unfold inNanos Span.inNanos
    dsimp only
    rw [perSecond_eq]
    omega
  · rw [word?_of_le h]
    exact Or.inr ⟨rfl, h⟩

end Tally

/-- The sum of spans is the span of their nanoseconds together, and there is one just if these are in
range. -/
theorem sum?_spec (spans : List Span) :
    (∃ t, sum? spans = some t ∧ t.inNanos = total spans ∧ total spans < pastRange) ∨
      sum? spans = none ∧ pastRange ≤ total spans := by
  have hzero : (⟨0, 0⟩ : Tally).inNanos + total spans = total spans := Nat.zero_add _
  unfold sum?
  rcases Tally.foldlM_add?_spec ⟨0, 0⟩ spans with ⟨u, hu, hsum⟩ | ⟨hnone, hpast⟩
  · rw [hu, Option.bind_some, ← hzero, ← hsum]
    exact u.total?_spec
  · rw [hnone]
    exact Or.inr ⟨rfl, hzero ▸ hpast⟩

/-! ## Quotients -/

/-- A quotient by a number of 32 bits comes about, and is the exact one rounded down. -/
theorem exists_div? (s : Span) {n : Nat} (hn : 0 < n) (hword : n < UInt32.size) :
    ∃ q, s.div? n = some q ∧ q.inNanos = s.inNanos / n := by
  have hfits : s.seconds % n * perSecond + s.nanos % n < limit := by
    have hseconds : s.seconds % n * perSecond ≤ UInt32.size * perSecond :=
      Nat.mul_le_mul_right _ ((Nat.mod_lt _ hn).trans hword).le
    have hnanos := Nat.mod_lt s.nanos hn
    have hroom : UInt32.size * perSecond + UInt32.size < limit := by decide
    omega
  refine ⟨_, dif_pos ⟨hn, hfits⟩, ?_⟩
  have hsplit : s.seconds * perSecond + s.nanos = s.seconds % n * perSecond + s.nanos % n +
      n * (s.seconds / n * perSecond + s.nanos / n) := by
    conv_lhs => rw [← Nat.mod_add_div s.seconds n, ← Nat.mod_add_div s.nanos n]
    ring
  unfold inNanos
  rw [hsplit, Nat.add_mul_div_left _ _ hn]
  dsimp only
  omega

/-- The average of some spans is between two bounds of them. -/
theorem average_between {spans : List Span} {low high : Nat} (hne : spans ≠ [])
    (hlow : ∀ s ∈ spans, low ≤ s.inNanos) (hhigh : ∀ s ∈ spans, s.inNanos ≤ high) :
    low ≤ total spans / spans.length ∧ total spans / spans.length ≤ high := by
  have hpos : 0 < spans.length := List.length_pos_iff.2 hne
  have hleast := List.card_nsmul_le_sum (spans.map inNanos) low (by simpa using hlow)
  have hgreatest := List.sum_le_card_nsmul (spans.map inNanos) high (by simpa using hhigh)
  rw [List.length_map, nsmul_eq_mul] at hleast hgreatest
  exact ⟨(Nat.le_div_iff_mul_le hpos).2 (by rwa [Nat.mul_comm]),
    Nat.div_le_of_le_mul hgreatest⟩

end Span

namespace NetworkMetrics

open SealedCustody.Span

variable {m : NetworkMetrics}

/-- With a round-trip time known, there is a summary just if the sum is in range; its average is then the
exact one by the number of the round-trip times, which counts as the largest of 32 bits at most. -/
theorem latencyStats_spec (hne : m.latencies ≠ []) :
    (∃ s, m.latencyStats = .stats s ∧ total m.latencies < pastRange ∧
      (s.min ∈ m.latencies ∧ ∀ t ∈ m.latencies, s.min.inNanos ≤ t.inNanos) ∧
      (s.max ∈ m.latencies ∧ ∀ t ∈ m.latencies, t.inNanos ≤ s.max.inNanos) ∧
      s.avg.inNanos = total m.latencies / Nat.min m.latencies.length maxCount) ∨
    m.latencyStats = .overflow ∧ pastRange ≤ total m.latencies := by
  unfold latencyStats
  cases hlatencies : m.latencies with
  | nil => exact absurd hlatencies hne
  | cons first rest =>
    dsimp only
    rcases sum?_spec (first :: rest) with ⟨sum, hsum, hnanos, hrange⟩ | ⟨hnone, hpast⟩
    · have hpos : 0 < Nat.min (first :: rest).length maxCount :=
        Nat.lt_min.2 ⟨Nat.succ_pos _, by decide⟩
      have hword : Nat.min (first :: rest).length maxCount < UInt32.size :=
        Nat.lt_of_le_of_lt (Nat.min_le_right ..) (by decide)
      obtain ⟨avg, hdiv, havg⟩ := sum.exists_div? hpos hword
      rw [hsum, Option.bind_some, hdiv]
      exact Or.inl ⟨_, rfl, hrange, foldl_min_spec first rest, foldl_max_spec first rest, hnanos ▸ havg⟩
    · rw [hnone]
      exact Or.inr ⟨rfl, hpast⟩

theorem latencies_eq_nil_iff : m.latencies = [] ↔ ∀ p ∈ m.peers, p.latency = none :=
  List.filterMap_eq_nil_iff

/-- No peer with a known round-trip time is what leaves a summary out. With some, fewer than 32 bits count,
and a sum in range there is a summary: of the smallest and the largest, and of the exact average rounded
down to nanoseconds, which is between them. Only a sum past the range breaks the summary off. -/
theorem latencyStats_exact (m : NetworkMetrics) :
    (m.latencyStats = .none ↔ ∀ p ∈ m.peers, p.latency = none) ∧
    (m.latencyStats = .overflow ↔ pastRange ≤ total m.latencies) ∧
    (m.latencies ≠ [] → m.latencies.length < UInt32.size → total m.latencies < pastRange →
      ∃ s, m.latencyStats = .stats s ∧
        (s.min ∈ m.latencies ∧ ∀ t ∈ m.latencies, s.min.atMost t = true) ∧
        (s.max ∈ m.latencies ∧ ∀ t ∈ m.latencies, t.atMost s.max = true) ∧
        s.avg.inNanos = total m.latencies / m.latencies.length ∧
        s.min.atMost s.avg = true ∧ s.avg.atMost s.max = true) := by
  rw [← latencies_eq_nil_iff]
  simp only [atMost_iff]
  by_cases hne : m.latencies = []
  · have hstats : m.latencyStats = .none := by rw [latencyStats, hne]
    refine ⟨iff_of_true hstats hne, iff_of_false (by simp [hstats]) ?_, fun h => absurd hne h⟩
    rw [hne]
    decide
  · rcases latencyStats_spec hne with ⟨s, hstats, hrange, hmin, hmax, havg⟩ | ⟨hstats, hpast⟩
    · refine ⟨iff_of_false (by simp [hstats]) hne,
        iff_of_false (by simp [hstats]) (Nat.not_le.2 hrange), ?_⟩
      intro _ hcount _
      have hlength : Nat.min m.latencies.length maxCount = m.latencies.length :=
        Nat.min_eq_left (Nat.le_pred_of_lt hcount)
      rw [hlength] at havg
      obtain ⟨hlow, hhigh⟩ := average_between hne hmin.2 hmax.2
      exact ⟨s, hstats, hmin, hmax, havg, hlow.trans_eq havg.symm, havg.trans_le hhigh⟩
    · exact ⟨iff_of_false (by simp [hstats]) hne, iff_of_true hstats hpast,
        fun _ _ hrange => absurd hpast (Nat.not_le.2 hrange)⟩

/-- Three round-trip times whose sum is the longest span there is, carried twice on the way. -/
theorem latencyStats_exact_at_longest :
    let peer (latency : Option Span) : PeerMetrics := ⟨⟨[]⟩, [], .inbound, latency, 0⟩
    let m : NetworkMetrics := ⟨⟨[]⟩, [peer (some { seconds := UInt64.size - 2, nanos := 999999999 }),
      peer none, peer (some { seconds := 0, nanos := 999999999 }),
      peer (some { seconds := 0, nanos := 1 })]⟩
    m.latencies ≠ [] ∧ m.latencies.length < UInt32.size ∧ total m.latencies = pastRange - 1 ∧
      ∃ s, m.latencyStats = .stats s ∧
        s.avg = { seconds := 6148914691236517205, nanos := 333333333 } ∧
        s.min.atMost s.avg = true ∧ s.avg.atMost s.max = true := by
  intro peer m
  have hne : m.latencies ≠ [] := by decide
  have hcount : m.latencies.length < UInt32.size := by decide
  have htotal : total m.latencies = pastRange - 1 := by decide
  obtain ⟨-, -, hsummary⟩ := latencyStats_exact m
  obtain ⟨s, hstats, -, -, havg, hbetween⟩ := hsummary hne hcount (by rw [htotal]; decide)
  refine ⟨hne, hcount, htotal, s, hstats, inNanos_injective ?_, hbetween⟩
  rw [havg, htotal]
  decide

/-- One more nanosecond, and the sum is past the range. -/
example :
    let peer (latency : Option Span) : PeerMetrics := ⟨⟨[]⟩, [], .inbound, latency, 0⟩
    (⟨⟨[]⟩, [peer (some { seconds := UInt64.size - 1, nanos := 999999999 }),
      peer (some { seconds := 0, nanos := 1 })]⟩ : NetworkMetrics).latencyStats = .overflow := by
  decide

end NetworkMetrics

end SealedCustody
