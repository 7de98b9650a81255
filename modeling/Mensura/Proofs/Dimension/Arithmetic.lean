import Mathlib.Algebra.BigOperators.Group.List.Basic
import Mensura.Dimension

/-! Dimensions form a commutative group with unbounded exponents. The checked operations are its
product and its powers wherever the exponents fit into 32 bits, and undefined elsewhere. -/
namespace Mensura.Dimension

attribute [ext] Dimension

theorem mk_mul (l m t θ a l' m' t' θ' a' : Int) : (⟨l,m,t,θ,a⟩ : Dimension) * ⟨l',m',t',θ',a'⟩ =
    ⟨l + l',m + m',t + t',θ + θ',a + a'⟩ := rfl

theorem mk_pow (l m t θ a n : Int) :
    (⟨l,m,t,θ,a⟩ : Dimension).pow n = ⟨l * n,m * n,t * n,θ * n,a * n⟩ := rfl

def inverse (d : Dimension) : Dimension := d.map Neg.neg

protected theorem pow_zero (d : Dimension) : d.pow 0 = dimensionless := by
  simp [pow,map,dimensionless]

protected theorem pow_add (d : Dimension) (m n : Int) : d.pow (m + n) = d.pow m * d.pow n := by
  apply Dimension.ext <;> exact Int.mul_add ..

protected theorem pow_neg (d : Dimension) (n : Int) : d.pow (-n) = (d.pow n).inverse := by
  apply Dimension.ext <;> exact (Int.neg_mul_eq_mul_neg ..).symm

@[simp] protected theorem pow_one (d : Dimension) : d.pow 1 = d := by
  apply Dimension.ext <;> exact Int.mul_one _

instance : CommGroup Dimension where
  mul := Mul.mul
  one := dimensionless
  inv := inverse
  div := Div.div
  npow n d := d.pow n
  zpow n d := d.pow n
  mul_assoc a b c := by apply Dimension.ext <;> exact Int.add_assoc ..
  mul_comm a b := by apply Dimension.ext <;> exact Int.add_comm ..
  one_mul := dimensionless_mul
  mul_one := mul_dimensionless
  inv_mul_cancel d := by apply Dimension.ext <;> exact Int.add_left_neg _
  div_eq_mul_inv a b := by apply Dimension.ext <;> exact Int.sub_eq_add_neg
  npow_zero := Dimension.pow_zero
  npow_succ n d := by
    show d.pow (n + 1) = d.pow n * d
    rw [Dimension.pow_add,Dimension.pow_one]
  zpow_zero' := Dimension.pow_zero
  zpow_succ' n d := by
    show d.pow (n + 1) = d.pow n * d
    rw [Dimension.pow_add,Dimension.pow_one]
  zpow_neg' n d := by
    show d.pow (Int.negSucc n) = (d.pow (n + 1)).inverse
    rw [Int.negSucc_eq,Dimension.pow_neg]

protected theorem mul_pow (a b : Dimension) (n : Int) : (a * b).pow n = a.pow n * b.pow n :=
  mul_zpow a b n

protected theorem pow_mul (d : Dimension) (m n : Int) : d.pow (m * n) = (d.pow m).pow n :=
  zpow_mul d m n

/-- Every exponent is a number of 32 bits. -/
def Fits (d : Dimension) : Prop := ∀ n ∈ d.exponents, fits n = true

instance (d : Dimension) : Decidable d.Fits := inferInstanceAs (Decidable (∀ n ∈ d.exponents, _))

theorem fits_dimensionless : dimensionless.Fits := by decide

/-- Five exponents that are checked one after the other. -/
theorem checked_eq_some_iff {l m t θ a : Int} {c : Dimension} :
    (do return ⟨← checked? l,← checked? m,← checked? t,← checked? θ,← checked? a⟩) = some c ↔
      (⟨l,m,t,θ,a⟩ : Dimension).Fits ∧ ⟨l,m,t,θ,a⟩ = c := by
  simp only [Option.bind_eq_bind,Option.bind_eq_some_iff,checked?_eq_some_iff,Fits,exponents,
    List.forall_mem_cons]
  constructor
  · rintro ⟨_,⟨hl,rfl⟩,_,⟨hm,rfl⟩,_,⟨ht,rfl⟩,_,⟨hθ,rfl⟩,_,⟨ha,rfl⟩,hc⟩
    exact ⟨⟨hl,hm,ht,hθ,ha,by simp⟩,Option.some.inj hc⟩
  · rintro ⟨⟨hl,hm,ht,hθ,ha,-⟩,rfl⟩
    exact ⟨_,⟨hl,rfl⟩,_,⟨hm,rfl⟩,_,⟨ht,rfl⟩,_,⟨hθ,rfl⟩,_,⟨ha,rfl⟩,rfl⟩

theorem product?_eq_some_iff {a b c : Dimension} :
    product? a b = some c ↔ (a * b).Fits ∧ a * b = c := checked_eq_some_iff

theorem power?_eq_some_iff {d c : Dimension} {n : Int} :
    power? d n = some c ↔ (d.pow n).Fits ∧ d.pow n = c := checked_eq_some_iff

/-! The checked operations are exact integer arithmetic with a look at the result: they answer if
every exponent of it is a 32-bit integer. The laws of exponents hold of them as soon as the
intermediate results exist; then both sides are the same number, or both are out of range. -/

variable {a b c d : Dimension} {m n : Int}

theorem fits_iff_exists_toInt : fits n = true ↔ ∃ x : Int32, x.toInt = n := by
  simp only [fits,Bool.and_eq_true,decide_eq_true_eq]
  constructor
  · rintro ⟨hle,hlt⟩
    exact ⟨Int32.ofInt n,Int32.toInt_ofInt_of_le hle hlt⟩
  · rintro ⟨x,rfl⟩
    exact ⟨x.le_toInt,x.toInt_lt⟩

/-- The dimension as it is, or nothing if some exponent does not fit. -/
def inRange? (d : Dimension) : Option Dimension := if d.Fits then some d else none

theorem inRange?_eq_some_iff : d.inRange? = some c ↔ d.Fits ∧ d = c := by simp [inRange?]

theorem product?_eq_inRange? (a b : Dimension) : product? a b = (a * b).inRange? :=
  Option.ext fun _ => product?_eq_some_iff.trans inRange?_eq_some_iff.symm

theorem power?_eq_inRange? (d : Dimension) (n : Int) : power? d n = (d.pow n).inRange? :=
  Option.ext fun _ => power?_eq_some_iff.trans inRange?_eq_some_iff.symm

/-- An answer that exists if and only if every number is a 32-bit integer, and then has these
numbers as exponents. -/
structure IsExact (ns : List Int) (answer : Option Dimension) : Prop where
  exists_iff : (∃ c, answer = some c) ↔ ∀ n ∈ ns, ∃ x : Int32, x.toInt = n
  exponents_eq : ∀ c, answer = some c → c.exponents = ns

theorem isExact_inRange? (d : Dimension) : IsExact d.exponents d.inRange? where
  exists_iff := by simp [inRange?_eq_some_iff,Fits,fits_iff_exists_toInt]
  exponents_eq c h := by
    obtain ⟨-,rfl⟩ := inRange?_eq_some_iff.mp h
    rfl

theorem isExact_product? (a b : Dimension) :
    IsExact (List.zipWith (· + ·) a.exponents b.exponents) (product? a b) := by
  rw [product?_eq_inRange?,← exponents_mul]
  exact isExact_inRange? _

theorem isExact_power? (d : Dimension) (n : Int) :
    IsExact (d.exponents.map (· * n)) (power? d n) := by
  rw [power?_eq_inRange?,← exponents_pow]
  exact isExact_inRange? _

/-! The laws, where the intermediate results are given. -/

theorem product?_comm (a b : Dimension) : product? a b = product? b a := by
  rw [product?_eq_inRange?,product?_eq_inRange?,mul_comm]

theorem product?_assoc {ab bc : Dimension} (hab : product? a b = some ab)
    (hbc : product? b c = some bc) : product? ab c = product? a bc := by
  obtain ⟨-,rfl⟩ := product?_eq_some_iff.mp hab
  obtain ⟨-,rfl⟩ := product?_eq_some_iff.mp hbc
  rw [product?_eq_inRange?,product?_eq_inRange?,mul_assoc]

-- One grouping may be refused although the other one is answered.
example : (product? ⟨0x7FFFFFFF,0,0,0,0⟩ length).bind (product? · (length.pow (-1))) = none ∧
    (product? length (length.pow (-1))).bind (product? ⟨0x7FFFFFFF,0,0,0,0⟩) =
      some ⟨0x7FFFFFFF,0,0,0,0⟩ := by decide

theorem power?_of_product? {ab an bn : Dimension} (hab : product? a b = some ab)
    (ha : power? a n = some an) (hb : power? b n = some bn) :
    power? ab n = product? an bn := by
  obtain ⟨-,rfl⟩ := product?_eq_some_iff.mp hab
  obtain ⟨-,rfl⟩ := power?_eq_some_iff.mp ha
  obtain ⟨-,rfl⟩ := power?_eq_some_iff.mp hb
  rw [power?_eq_inRange?,product?_eq_inRange?,Dimension.mul_pow]

theorem product?_of_power? {dm dn : Dimension} (hm : power? d m = some dm)
    (hn : power? d n = some dn) : product? dm dn = power? d (m + n) := by
  obtain ⟨-,rfl⟩ := power?_eq_some_iff.mp hm
  obtain ⟨-,rfl⟩ := power?_eq_some_iff.mp hn
  rw [product?_eq_inRange?,power?_eq_inRange?,Dimension.pow_add]

theorem power?_of_power? {dm : Dimension} (hm : power? d m = some dm) :
    power? dm n = power? d (m * n) := by
  obtain ⟨-,rfl⟩ := power?_eq_some_iff.mp hm
  rw [power?_eq_inRange?,power?_eq_inRange?,Dimension.pow_mul]

-- Here `2 ^ 31` is out of range on the way, its opposite at the end is not.
example : (power? ⟨0x10000,0,0,0,0⟩ 0x8000).bind (power? · (-1)) = none ∧
    power? ⟨0x10000,0,0,0,0⟩ (0x8000 * -1) = some ⟨-0x80000000,0,0,0,0⟩ := by decide

/-- Products add exponents and powers multiply them, with nothing lost and nothing refused that is
in range; so the laws of exponents hold wherever the intermediate results exist. Neither the
arguments nor `m + n` and `m * n` have to be in range for that. -/
theorem checked_arithmetic_exact (a b c : Dimension) (m n : Int) :
    IsExact (List.zipWith (· + ·) a.exponents b.exponents) (product? a b) ∧
      IsExact (a.exponents.map (· * n)) (power? a n) ∧
      product? a b = product? b a ∧
      (∀ ab bc, product? a b = some ab → product? b c = some bc →
        product? ab c = product? a bc) ∧
      (∀ ab an bn, product? a b = some ab → power? a n = some an → power? b n = some bn →
        power? ab n = product? an bn) ∧
      (∀ am an, power? a m = some am → power? a n = some an →
        product? am an = power? a (m + n)) ∧
      ∀ am, power? a m = some am → power? am n = power? a (m * n) := by
  refine ⟨isExact_product? a b,isExact_power? a n,product?_comm a b,?_,?_,?_,?_⟩
  · intro ab bc hab hbc
    exact product?_assoc hab hbc
  · intro ab an bn hab ha hb
    exact power?_of_product? hab ha hb
  · intro am an hm hn
    exact product?_of_power? hm hn
  · intro am hm
    exact power?_of_power? hm

/-- Half the least exponent: its square exists, the inverse of the square does not. -/
def halfLeast : Dimension := ⟨-0x40000000,0,1,0,0⟩

theorem checked_arithmetic_exact_least :
    (product? halfLeast ⟨-0x40000000,0,0,0,1⟩ = some ⟨-0x80000000,0,1,0,1⟩ ∧
        product? ⟨-0x40000000,0,0,0,1⟩ length = some ⟨-0x3FFFFFFF,0,0,0,1⟩ ∧
        power? halfLeast (-1) = some ⟨0x40000000,0,-1,0,0⟩ ∧
        power? ⟨-0x40000000,0,0,0,1⟩ (-1) = some ⟨0x40000000,0,0,0,-1⟩ ∧
        power? halfLeast 2 = some ⟨-0x80000000,0,2,0,0⟩) ∧
      product? ⟨-0x80000000,0,1,0,1⟩ length = product? halfLeast ⟨-0x3FFFFFFF,0,0,0,1⟩ ∧
      power? ⟨-0x80000000,0,1,0,1⟩ (-1) = product? ⟨0x40000000,0,-1,0,0⟩ ⟨0x40000000,0,0,0,-1⟩ ∧
      product? ⟨-0x80000000,0,2,0,0⟩ ⟨0x40000000,0,-1,0,0⟩ = power? halfLeast (2 + -1) ∧
      power? ⟨-0x80000000,0,2,0,0⟩ (-1) = power? halfLeast (2 * -1) := by
  obtain ⟨-,-,-,hassoc,hproduct,hsum,hpower⟩ :=
    checked_arithmetic_exact halfLeast ⟨-0x40000000,0,0,0,1⟩ length 2 (-1)
  have hab : product? halfLeast ⟨-0x40000000,0,0,0,1⟩ = some ⟨-0x80000000,0,1,0,1⟩ := by decide
  have hbc : product? ⟨-0x40000000,0,0,0,1⟩ length = some ⟨-0x3FFFFFFF,0,0,0,1⟩ := by decide
  have ha : power? halfLeast (-1) = some ⟨0x40000000,0,-1,0,0⟩ := by decide
  have hb : power? ⟨-0x40000000,0,0,0,1⟩ (-1) = some ⟨0x40000000,0,0,0,-1⟩ := by decide
  have hm : power? halfLeast 2 = some ⟨-0x80000000,0,2,0,0⟩ := by decide
  exact ⟨⟨hab,hbc,ha,hb,hm⟩,hassoc _ _ hab hbc,hproduct _ _ _ hab ha hb,hsum _ _ hm ha,
    hpower _ hm⟩

end Mensura.Dimension
