import CitrateCrypto.SecretSharing.Shamir
import Mathlib.LinearAlgebra.Lagrange

namespace CitrateCrypto.SecretSharing

open FieldEngine ShamirSecretSharing

/-- A point `(j, x_j, y_j)` of `enumerate(points)` as the source's ints. -/
def castPoint (p : ℕ × GF × GF) : ℕ × ℤ × ℤ := (p.1, p.2.1.val, p.2.2.val)

/-- The points of `L` other than the `i`-th. -/
def others (i : ℕ) (L : List (ℕ × GF × GF)) : List (ℕ × GF × GF) := L.filter fun p => p.1 ≠ i

/-- Numerator `∏ x_j` and denominator `∏ (x_i - x_j)` of the `i`-th basis value at `0`. -/
def basisValue (i : ℕ) (xi : GF) (L : List (ℕ × GF × GF)) : GF × GF :=
  (((others i L).map fun p => p.2.1).prod, ((others i L).map fun p => xi - p.2.1).prod)

theorem basisValue_cons (i : ℕ) (xi : GF) (p : ℕ × GF × GF) (L : List (ℕ × GF × GF)) :
    basisValue i xi (p :: L) =
      if p.1 ≠ i then (p.2.1 * (basisValue i xi L).1, (xi - p.2.1) * (basisValue i xi L).2)
      else basisValue i xi L := by
  by_cases h : p.1 ≠ i <;> simp [basisValue, others, List.filter_cons, h]

theorem basisLoop_val (i : ℕ) (xi : GF) (L : List (ℕ × GF × GF)) (num den : GF) :
    basisLoop i xi.val (L.map castPoint) (num.val, den.val) =
      .ok ((num * (basisValue i xi L).1).val, (den * (basisValue i xi L).2).val) := by
  induction L generalizing num den with
  | nil => simp [basisLoop, basisValue, others]; rfl
  | cons p L ih =>
    obtain ⟨j, xj, yj⟩ := p
    rw [List.map_cons, castPoint, basisLoop, basisValue_cons]
    by_cases h : i ≠ j
    · rw [if_pos h, if_pos (Ne.symm h), GF256.multiply_val, ok_bind, GF256.subtract_val,
        GF256.multiply_val, ok_bind, ih, mul_assoc, mul_assoc, mul_comm num, mul_comm den]
    · rw [if_neg h, if_neg (fun h' => h (Ne.symm h')), ih]

/-- The term `y_i * (numerator / denominator)` that the outer loop adds for the point `p`. -/
def lagrangeTerm (P : List (ℕ × GF × GF)) (p : ℕ × GF × GF) : GF :=
  p.2.2 * ((basisValue p.1 p.2.1 P).1 / (basisValue p.1 p.2.1 P).2)

theorem interpolationLoop_val (P L : List (ℕ × GF × GF)) (res : GF)
    (hden : ∀ p ∈ L, (basisValue p.1 p.2.1 P).2 ≠ 0) :
    interpolationLoop (P.map castPoint) (L.map castPoint) res.val =
      .ok (res + (L.map (lagrangeTerm P)).sum).val := by
  induction L generalizing res with
  | nil => simp [interpolationLoop]; rfl
  | cons p L ih =>
    obtain ⟨i, xi, yi⟩ := p
    have hd := hden _ (List.mem_cons_self _ _)
    have hd' : ((1 * (basisValue i xi P).2).val : ℤ) ≠ 0 := by
      rwa [one_mul, ne_eq, GF.natCast_val_eq_zero]
    rw [List.map_cons, castPoint, interpolationLoop, show ((1 : ℤ), (1 : ℤ)) = (((1 : GF).val : ℤ),
      ((1 : GF).val : ℤ)) from rfl, basisLoop_val, ok_bind]
    dsimp only
    rw [if_neg hd', GF256.divide_val _ (by rwa [one_mul]), ok_bind, GF256.multiply_val, ok_bind,
      GF256.add_val, ih _ fun q hq => hden q (List.mem_cons_of_mem _ hq), List.map_cons,
      List.sum_cons, one_mul, one_mul, add_assoc]
    rfl

theorem interpolationLoop_error (P L : List (ℕ × GF × GF)) (res : GF)
    (h : ∃ p ∈ L, (basisValue p.1 p.2.1 P).2 = 0) :
    interpolationLoop (P.map castPoint) (L.map castPoint) res.val =
      .error (.valueError "Denominator is zero in Lagrange interpolation") := by
  induction L generalizing res with
  | nil => exact absurd h (by simp)
  | cons p L ih =>
    obtain ⟨i, xi, yi⟩ := p
    rw [List.map_cons, castPoint, interpolationLoop, show ((1 : ℤ), (1 : ℤ)) = (((1 : GF).val : ℤ),
      ((1 : GF).val : ℤ)) from rfl, basisLoop_val, ok_bind]
    dsimp only
    by_cases hd : (basisValue i xi P).2 = 0
    · rw [if_pos (by rw [one_mul, hd]; rfl)]
      rfl
    · have hd' : ((1 * (basisValue i xi P).2).val : ℤ) ≠ 0 := by
        rwa [one_mul, ne_eq, GF.natCast_val_eq_zero]
      -- the zero denominator lies further on
      have hL : ∃ q ∈ L, (basisValue q.1 q.2.1 P).2 = 0 :=
        ((List.exists_mem_cons_iff _ _ _).mp h).resolve_left hd
      rw [if_neg hd', GF256.divide_val _ (by rwa [one_mul]), ok_bind, GF256.multiply_val, ok_bind,
        GF256.add_val, ih _ hL]
      rfl

theorem enum_eq_map_range {α : Type} (l : List α) (d : α) :
    l.enum = (List.range l.length).map fun j => (j, l.getD j d) := by
  apply List.ext_getElem?
  intro n
  rw [List.getElem?_enum, List.getElem?_map]
  by_cases h : n < l.length
  · rw [List.getElem?_range h, List.getElem?_eq_getElem h]
    simp [h]
  · rw [List.getElem?_eq_none (by omega), List.getElem?_eq_none (by simpa using h)]
    rfl

theorem prod_filter_range (f : ℕ → GF) (t i : ℕ) :
    (((List.range t).filter fun j => j ≠ i).map f).prod = ∏ j ∈ (Finset.range t).erase i, f j := by
  rw [← List.prod_toFinset f ((List.nodup_range t).filter _)]
  congr 1
  ext j
  simp [and_comm]

/-- The Lagrange basis value at `0` for the node `i`, as the source writes it:
`∏ x_j / ∏ (x_i - x_j)` over the other nodes. -/
def basisAtZero (s : Finset ℕ) (v : ℕ → GF) (i : ℕ) : GF :=
  (∏ j ∈ s.erase i, v j) / ∏ j ∈ s.erase i, (v i - v j)

theorem eval_interpolate_zero (s : Finset ℕ) (v r : ℕ → GF) :
    (Lagrange.interpolate s v r).eval 0 = ∑ i ∈ s, r i * basisAtZero s v i := by
  simp only [Lagrange.interpolate_apply, Lagrange.basis, Lagrange.basisDivisor, basisAtZero,
    Polynomial.eval_finset_sum, Polynomial.eval_mul, Polynomial.eval_C, Polynomial.eval_prod,
    Polynomial.eval_sub, Polynomial.eval_X, zero_sub, GF.neg_def, Finset.prod_mul_distrib,
    Finset.prod_inv_distrib, div_eq_mul_inv, mul_comm (∏ j ∈ _, v j)]

section Nodes

variable (pts : List (GF × GF))

/-- The x-coordinate of the `j`-th point. -/
def nodes (j : ℕ) : GF := (pts.getD j (0, 0)).1

/-- The y-coordinate of the `j`-th point. -/
def values (j : ℕ) : GF := (pts.getD j (0, 0)).2

theorem basisValue_enum (i : ℕ) :
    basisValue i (nodes pts i) pts.enum =
      (∏ j ∈ (Finset.range pts.length).erase i, nodes pts j,
        ∏ j ∈ (Finset.range pts.length).erase i, (nodes pts i - nodes pts j)) := by
  rw [basisValue, others, enum_eq_map_range pts (0, 0), List.filter_map, List.map_map,
    List.map_map, ← prod_filter_range, ← prod_filter_range]
  rfl

theorem sum_lagrangeTerm :
    (pts.enum.map (lagrangeTerm pts.enum)).sum =
      ∑ i ∈ Finset.range pts.length, values pts i * basisAtZero (Finset.range pts.length) (nodes pts) i := by
  let G i := values pts i * basisAtZero (Finset.range pts.length) (nodes pts) i
  have hterm : ∀ p ∈ pts.enum, lagrangeTerm pts.enum p = G p.1 := by
    intro p hp
    have hget : pts.getD p.1 (0, 0) = p.2 := by
      rw [List.getD_eq_getElem?_getD, List.mem_enum_iff_getElem?.mp hp, Option.getD_some]
    rw [lagrangeTerm, show p.2.1 = nodes pts p.1 by rw [nodes, hget],
      show p.2.2 = values pts p.1 by rw [values, hget], basisValue_enum]
    rfl
  have hset : (List.range pts.length).toFinset = Finset.range pts.length := by ext; simp
  rw [List.map_congr_left hterm, show (pts.enum.map fun p => G p.1) = (pts.enum.map Prod.fst).map G
    from (List.map_map G Prod.fst pts.enum).symm, List.enum_map_fst,
    ← List.sum_toFinset G (List.nodup_range _), hset]

theorem nodes_injOn (hnd : (pts.map Prod.fst).Nodup) :
    Set.InjOn (nodes pts) (Finset.range pts.length) := by
  intro i hi j hj h
  have hi' : i < pts.length := Finset.mem_range.mp hi
  have hj' : j < pts.length := Finset.mem_range.mp hj
  rw [nodes, nodes, List.getD_eq_getElem _ _ hi', List.getD_eq_getElem _ _ hj'] at h
  exact congrArg Fin.val ((hnd.get_inj_iff (i := ⟨i, by simpa using hi'⟩)
    (j := ⟨j, by simpa using hj'⟩)).mp (by simpa using h))

theorem basisValue_ne_zero (hnd : (pts.map Prod.fst).Nodup) :
    ∀ p ∈ pts.enum, (basisValue p.1 p.2.1 pts.enum).2 ≠ 0 := by
  intro p hp
  have hget : pts.getD p.1 (0, 0) = p.2 := by
    rw [List.getD_eq_getElem?_getD, List.mem_enum_iff_getElem?.mp hp, Option.getD_some]
  have hlt := List.fst_lt_of_mem_enum hp
  rw [show p.2.1 = nodes pts p.1 by rw [nodes, hget], basisValue_enum, Finset.prod_ne_zero_iff]
  intro j hj
  obtain ⟨hji, hj⟩ := Finset.mem_erase.mp hj
  exact sub_ne_zero.mpr fun h => hji (nodes_injOn pts hnd hj (Finset.mem_range.mpr hlt) h.symm)

theorem enum_map_val :
    (pts.map fun q => ((q.1.val : ℤ), (q.2.val : ℤ))).enum = pts.enum.map castPoint := by
  rw [List.enum_map]
  rfl

theorem lagrangeInterpolation_val (hnd : (pts.map Prod.fst).Nodup) (x : ℤ) :
    lagrangeInterpolation (pts.map fun q => ((q.1.val : ℤ), (q.2.val : ℤ))) x =
      .ok ((Lagrange.interpolate (Finset.range pts.length) (nodes pts) (values pts)).eval 0).val := by
  rw [lagrangeInterpolation, enum_map_val, show (0 : ℤ) = ((0 : GF).val : ℤ) from rfl,
    interpolationLoop_val _ _ _ (basisValue_ne_zero pts hnd), zero_add, sum_lagrangeTerm,
    eval_interpolate_zero]

theorem eq_interpolate_of_eval (hnd : (pts.map Prod.fst).Nodup) {f : Polynomial GF}
    (hdeg : f.degree < pts.length) (hf : ∀ q ∈ pts, f.eval q.1 = q.2) :
    f = Lagrange.interpolate (Finset.range pts.length) (nodes pts) (values pts) := by
  refine Lagrange.eq_interpolate_of_eval_eq _ (nodes_injOn pts hnd) (by simpa using hdeg) fun j hj => ?_
  have hj' := Finset.mem_range.mp hj
  rw [nodes, values, List.getD_eq_getElem _ _ hj']
  exact hf _ (List.getElem_mem hj')

theorem exists_basisValue_eq_zero (hdup : ¬(pts.map Prod.fst).Nodup) :
    ∃ p ∈ pts.enum, (basisValue p.1 p.2.1 pts.enum).2 = 0 := by
  obtain ⟨i, j, hi, hj, hij, hx⟩ : ∃ i j, i < pts.length ∧ j < pts.length ∧ i ≠ j ∧
      nodes pts i = nodes pts j := by
    rw [List.nodup_iff_injective_get] at hdup
    simp only [Function.Injective, not_forall] at hdup
    obtain ⟨a, b, hab, hne⟩ := hdup
    have ha : (a : ℕ) < pts.length := by simpa using a.isLt
    have hb : (b : ℕ) < pts.length := by simpa using b.isLt
    refine ⟨a, b, ha, hb, fun h => hne (Fin.ext h), ?_⟩
    rw [nodes, nodes, List.getD_eq_getElem _ _ ha, List.getD_eq_getElem _ _ hb]
    simpa using hab
  refine ⟨(i, pts.getD i (0, 0)), List.mem_enum_iff_getElem?.mpr ?_, ?_⟩
  · rw [List.getD_eq_getElem _ _ hi, List.getElem?_eq_getElem hi]
  · rw [show (pts.getD i (0, 0)).1 = nodes pts i from rfl, basisValue_enum]
    exact Finset.prod_eq_zero (Finset.mem_erase.mpr ⟨Ne.symm hij, Finset.mem_range.mpr hj⟩)
      (by rw [hx, sub_self])

theorem lagrangeInterpolation_dup (hdup : ¬(pts.map Prod.fst).Nodup) (x : ℤ) :
    lagrangeInterpolation (pts.map fun q => ((q.1.val : ℤ), (q.2.val : ℤ))) x =
      .error (.valueError "Denominator is zero in Lagrange interpolation") := by
  rw [lagrangeInterpolation, enum_map_val, show (0 : ℤ) = ((0 : GF).val : ℤ) from rfl,
    interpolationLoop_error _ _ _ (exists_basisValue_eq_zero pts hdup)]

end Nodes

theorem lagrangeInterpolation_eq_eval_zero {points : List (ℤ × ℤ)} {f : Polynomial GF}
    (hx : ∀ q ∈ points, 0 ≤ q.1 ∧ q.1 ≤ 255) (hnd : (points.map Prod.fst).Nodup)
    (hdeg : f.degree < points.length) (hf : ∀ q ∈ points, q.2 = (f.eval (GF.ofInt q.1)).val)
    (x : ℤ) : lagrangeInterpolation points x = .ok (f.eval 0).val := by
  -- the points as field elements
  set pts := points.map fun q => (GF.ofInt q.1, GF.ofInt q.2) with hpts
  have hback : pts.map (fun q => ((q.1.val : ℤ), (q.2.val : ℤ))) = points := by
    rw [hpts, List.map_map]
    refine (List.map_congr_left fun q hq => ?_).trans (List.map_id _)
    have h1 := hx q hq
    have h2 := hf q hq
    have h3 := (f.eval (GF.ofInt q.1)).lt
    simp only [Function.comp_apply, id]
    rw [GF.val_ofInt h1.1 (by omega), GF.val_ofInt (by omega) (by omega)]
  have hnd' : (pts.map Prod.fst).Nodup := by
    have hmap : pts.map Prod.fst = (points.map Prod.fst).map GF.ofInt := by
      rw [hpts, List.map_map, List.map_map]
      rfl
    rw [hmap]
    refine List.Nodup.map_on (fun a ha b hb hab => ?_) hnd
    obtain ⟨p, hp, rfl⟩ := List.mem_map.mp ha
    obtain ⟨p', hp', rfl⟩ := List.mem_map.mp hb
    have := hx p hp
    have := hx p' hp'
    exact GF.ofInt_injOn (by omega) (by omega) (by omega) (by omega) hab
  have hon : ∀ q ∈ pts, f.eval q.1 = q.2 := by
    intro q hq
    obtain ⟨p, hp, rfl⟩ := List.mem_map.mp hq
    rw [hf p hp, GF.ofInt_val]
  rw [← hback, lagrangeInterpolation_val pts hnd' x,
    ← eq_interpolate_of_eval pts hnd' (by simpa [hpts] using hdeg) hon]

/-- `_lagrange_interpolation(points, x)` returns `f(0)`, not `f(x)`, for the polynomial `f` of
degree below the number of points through them, whatever `x` is: the loop never reads `x`. Through
`(1, 1)` and `(2, 2)`, on `f(x) = x`, it returns `0` at `x = 1`. -/
theorem lagrangeInterpolation_returns_value_at_zero :
    (∀ (points : List (ℤ × ℤ)) (f : Polynomial GF), (∀ q ∈ points, 0 ≤ q.1 ∧ q.1 ≤ 255) →
      (points.map Prod.fst).Nodup → f.degree < points.length →
      (∀ q ∈ points, q.2 = (f.eval (GF.ofInt q.1)).val) →
      ∀ x, lagrangeInterpolation points x = .ok (f.eval 0).val) ∧
    lagrangeInterpolation [(1, 1), (2, 2)] 1 = .ok 0 ∧
      ((Polynomial.X : Polynomial GF).eval (GF.ofInt 1)).val = 1 := by
  refine ⟨fun _ _ => lagrangeInterpolation_eq_eval_zero, ?_, by rw [Polynomial.eval_X]; rfl⟩
  have hdeg : (Polynomial.X : Polynomial GF).degree < ([(1, 1), (2, 2)] : List (ℤ × ℤ)).length := by
    rw [Polynomial.degree_X]
    decide
  rw [lagrangeInterpolation_eq_eval_zero (by decide) (by decide) hdeg
    (by simp only [Polynomial.eval_X]; decide), Polynomial.eval_X]
  rfl

/-- The points that the `byte_pos = b` round of `reconstruct_secret` interpolates. -/
def bytePoints (active : List (ℤ × List Byte)) (b : ℕ) : List (GF × GF) :=
  active.map fun s => (GF.ofInt s.1, GF.ofByte (s.2.getD b 0))

/-- Lagrange's formula at `0` over the points `pts`, as a sum over their indices. -/
def lagrangeAtZero (pts : List (GF × GF)) : GF :=
  ∑ i ∈ Finset.range pts.length, values pts i * basisAtZero (Finset.range pts.length) (nodes pts) i

/-- Shares whose x-coordinates are distinct elements of `[1, 255]`. -/
def ValidPoints (active : List (ℤ × List Byte)) : Prop :=
  (∀ s ∈ active, 1 ≤ s.1 ∧ s.1 ≤ 255) ∧ (active.map Prod.fst).Nodup

theorem ValidPoints.inRange {active : List (ℤ × List Byte)} (h : ValidPoints active) :
    ∀ s ∈ active, 0 ≤ s.1 ∧ s.1 ≤ 255 :=
  fun s hs => ⟨by have := (h.1 s hs).1; omega, (h.1 s hs).2⟩

section InRange

variable {active : List (ℤ × List Byte)} (hx : ∀ s ∈ active, 0 ≤ s.1 ∧ s.1 ≤ 255)
include hx

theorem bytePoints_val (b : ℕ) :
    (bytePoints active b).map (fun q => ((q.1.val : ℤ), (q.2.val : ℤ))) =
      active.map fun share => (share.1, ((share.2.getD b 0).val : ℤ)) := by
  rw [bytePoints, List.map_map]
  refine List.map_congr_left fun s hs => ?_
  have := hx s hs
  simp only [Function.comp_apply, Prod.mk.injEq]
  exact ⟨GF.val_ofInt (x := s.1) (by omega) (by omega), rfl⟩

theorem bytePoints_nodup_iff (b : ℕ) :
    ((bytePoints active b).map Prod.fst).Nodup ↔ (active.map Prod.fst).Nodup := by
  have hmap : (bytePoints active b).map Prod.fst = (active.map Prod.fst).map GF.ofInt := by
    simp [bytePoints]
  rw [hmap]
  refine ⟨List.Nodup.of_map _, List.Nodup.map_on fun x hx' y hy hxy => ?_⟩
  obtain ⟨s, hs, rfl⟩ := List.mem_map.mp hx'
  obtain ⟨s', hs', rfl⟩ := List.mem_map.mp hy
  have := hx s hs
  have := hx s' hs'
  exact GF.ofInt_injOn (by omega) (by omega) (by omega) (by omega) hxy

theorem lagrangeInterpolation_byteRound (hnd : (active.map Prod.fst).Nodup) (b : ℕ) :
    lagrangeInterpolation (active.map fun share => (share.1, ((share.2.getD b 0).val : ℤ))) 0 =
      .ok (lagrangeAtZero (bytePoints active b)).val := by
  rw [← bytePoints_val hx, lagrangeInterpolation_val _ ((bytePoints_nodup_iff hx b).mpr hnd),
    eval_interpolate_zero]
  rfl

end InRange

theorem reconstructSecret_spec (sss : ShamirSecretSharing) (shares : List (ℤ × List Byte))
    (hlen : sss.threshold ≤ shares.length) (hv : ValidPoints (shares.take sss.threshold)) (l : ℕ)
    (hl : ∀ s ∈ shares.take sss.threshold, s.2.length = l) :
    sss.reconstructSecret shares = .ok ((List.range l).map fun b =>
      GF.toByte (lagrangeAtZero (bytePoints (shares.take sss.threshold) b))) := by
  rw [reconstructSecret_eq sss hlen hl,
    mapM_eq_ok fun b _ => lagrangeInterpolation_byteRound hv.inRange hv.2 b, ok_bind, bytesOf_val]

theorem bytePoints_getD (active : List (ℤ × List Byte)) (b j : ℕ) :
    (bytePoints active b).getD j (0, 0) =
      (GF.ofInt (active.getD j (0, [])).1, GF.ofByte ((active.getD j (0, [])).2.getD b 0)) := by
  rw [bytePoints, show ((0 : GF), (0 : GF)) = (GF.ofInt (0, ([] : List Byte)).1,
    GF.ofByte (((0 : ℤ), ([] : List Byte)).2.getD b 0)) from rfl, List.getD_map]

section Interpolant

variable {active : List (ℤ × List Byte)} (hx : ∀ s ∈ active, 0 ≤ s.1 ∧ s.1 ≤ 255)
  (hnd : (active.map Prod.fst).Nodup) (b : ℕ)
include hx hnd

theorem nodes_bytePoints_injOn :
    Set.InjOn (nodes (bytePoints active b)) (Finset.range active.length) := by
  simpa [bytePoints] using nodes_injOn _ ((bytePoints_nodup_iff hx b).mpr hnd)

theorem interpolant_spec :
    let P := Lagrange.interpolate (Finset.range active.length) (nodes (bytePoints active b))
      (values (bytePoints active b))
    P.degree < active.length ∧
      (∀ s ∈ active, P.eval (GF.ofInt s.1) = GF.ofByte (s.2.getD b 0)) ∧
      (∀ Q : Polynomial GF, Q.degree < active.length →
        (∀ s ∈ active, Q.eval (GF.ofInt s.1) = GF.ofByte (s.2.getD b 0)) → Q = P) ∧
      lagrangeAtZero (bytePoints active b) = P.eval 0 := by
  intro P
  have hinj := nodes_bytePoints_injOn hx hnd b
  have hnode : ∀ j (hj : j < active.length), nodes (bytePoints active b) j = GF.ofInt active[j].1 ∧
      values (bytePoints active b) j = GF.ofByte (active[j].2.getD b 0) := fun j hj => by
    rw [nodes, values, bytePoints_getD, List.getD_eq_getElem _ _ hj]
    exact ⟨rfl, rfl⟩
  have hlen : (bytePoints active b).length = active.length := List.length_map _ _
  refine ⟨by simpa using Lagrange.degree_interpolate_lt _ hinj, fun s hs => ?_, fun Q hQ hQs => ?_, ?_⟩
  · obtain ⟨j, hj, rfl⟩ := List.getElem_of_mem hs
    rw [← (hnode j hj).1, ← (hnode j hj).2]
    exact Lagrange.eval_interpolate_at_node _ hinj (Finset.mem_range.mpr hj)
  · refine Lagrange.eq_interpolate_of_eval_eq _ hinj (by simpa using hQ) fun j hj => ?_
    have hj' := Finset.mem_range.mp hj
    rw [(hnode j hj').1, (hnode j hj').2]
    exact hQs _ (List.getElem_mem hj')
  · rw [lagrangeAtZero, eval_interpolate_zero, hlen]

end Interpolant

theorem reconstructSecret_interpolates (sss : ShamirSecretSharing) (shares : List (ℤ × List Byte))
    (hlen : sss.threshold ≤ shares.length) (hv : ValidPoints (shares.take sss.threshold)) (l : ℕ)
    (hl : ∀ s ∈ shares.take sss.threshold, s.2.length = l) :
    ∃ secret, sss.reconstructSecret shares = .ok secret ∧ secret.length = l ∧
      ∀ b < l, ∃ P : Polynomial GF, P.degree < sss.threshold ∧
        (∀ s ∈ shares.take sss.threshold, P.eval (GF.ofInt s.1) = GF.ofByte (s.2.getD b 0)) ∧
        (∀ Q : Polynomial GF, Q.degree < sss.threshold →
          (∀ s ∈ shares.take sss.threshold, Q.eval (GF.ofInt s.1) = GF.ofByte (s.2.getD b 0)) →
            Q = P) ∧
        GF.ofByte (secret.getD b 0) = P.eval 0 := by
  have ht : (shares.take sss.threshold).length = sss.threshold := by
    rw [List.length_take, Nat.min_eq_left hlen]
  refine ⟨_, reconstructSecret_spec sss shares hlen hv l hl, by simp, fun b hb => ?_⟩
  obtain ⟨hdeg, hthrough, hunique, hzero⟩ := interpolant_spec hv.inRange hv.2 b
  refine ⟨_, hdeg.trans_eq (by rw [ht]), hthrough, fun Q hQ => hunique Q (hQ.trans_eq (by rw [ht])),
    ?_⟩
  rw [List.getD_eq_getElem _ _ (by simpa using hb), List.getElem_map, List.getElem_range,
    GF.ofByte_toByte, hzero]

/-- `reconstruct_secret` is Lagrange interpolation at `0` byte by byte; hence permuting the first
`threshold` shares does not change its result. -/
theorem reconstructSecret_lagrange (sss : ShamirSecretSharing) (shares : List (ℤ × List Byte))
    (hlen : sss.threshold ≤ shares.length) (hv : ValidPoints (shares.take sss.threshold)) (l : ℕ)
    (hl : ∀ s ∈ shares.take sss.threshold, s.2.length = l) :
    (∃ secret, sss.reconstructSecret shares = .ok secret ∧ secret.length = l ∧
      ∀ b < l, ∃ P : Polynomial GF, P.degree < sss.threshold ∧
        (∀ s ∈ shares.take sss.threshold, P.eval (GF.ofInt s.1) = GF.ofByte (s.2.getD b 0)) ∧
        (∀ Q : Polynomial GF, Q.degree < sss.threshold →
          (∀ s ∈ shares.take sss.threshold, Q.eval (GF.ofInt s.1) = GF.ofByte (s.2.getD b 0)) →
            Q = P) ∧
        GF.ofByte (secret.getD b 0) = P.eval 0) ∧
    ∀ shares' : List (ℤ × List Byte), sss.threshold ≤ shares'.length →
      (shares'.take sss.threshold).Perm (shares.take sss.threshold) →
        sss.reconstructSecret shares' = sss.reconstructSecret shares := by
  refine ⟨reconstructSecret_interpolates sss shares hlen hv l hl, fun shares' hlen' hperm => ?_⟩
  have hv' : ValidPoints (shares'.take sss.threshold) :=
    ⟨fun s hs => hv.1 s (hperm.mem_iff.mp hs), (hperm.map Prod.fst).nodup_iff.mpr hv.2⟩
  obtain ⟨sec, hsec, hlsec, hP⟩ := reconstructSecret_interpolates sss shares hlen hv l hl
  obtain ⟨sec', hsec', hlsec', hP'⟩ := reconstructSecret_interpolates sss shares' hlen' hv' l
    fun s hs => hl s (hperm.mem_iff.mp hs)
  rw [hsec, hsec']
  congr 1
  refine List.ext_getElem (by rw [hlsec, hlsec']) fun b hb _ => GF.ofByte_injective ?_
  rw [hlsec'] at hb
  obtain ⟨P, hPdeg, hPthrough, hPunique, hPsec⟩ := hP b hb
  obtain ⟨P', hP'deg, hP'through, -, hP'sec⟩ := hP' b hb
  have hPP : P' = P := hPunique P' hP'deg fun s hs => hP'through s (hperm.mem_iff.mpr hs)
  rw [← List.getD_eq_getElem _ 0, ← List.getD_eq_getElem _ 0, hP'sec, hPsec, hPP]

theorem reconstructSecret_lagrange_two_of_three :
    let sss : ShamirSecretSharing := ⟨2, 3, by decide, by decide, by decide⟩
    let shares : List (ℤ × List Byte) := [(1, [7]), (2, [9]), (3, [1])]
    sss.threshold ≤ shares.length ∧ ValidPoints (shares.take sss.threshold) ∧
      (∀ s ∈ shares.take sss.threshold, s.2.length = 1) ∧
      ∃ secret, sss.reconstructSecret shares = .ok secret ∧ secret.length = 1 := by
  intro sss shares
  have hv : ValidPoints (shares.take sss.threshold) := by unfold ValidPoints; decide
  obtain ⟨secret, h, hl, -⟩ := (reconstructSecret_lagrange sss shares (by decide) hv 1 (by decide)).1
  exact ⟨by decide, hv, by decide, secret, h, hl⟩

end CitrateCrypto.SecretSharing
