/-
  Akbench.Common.Names
  ────────────────────
  **`GenerateUniqueName`, AND THE NAMES OF EVERY OBJECT OF THE SYSTEM.**

  Each benchmark file makes up its names once, when `akbench` starts, from a
  base name and a random value.  Semaphores, shared memory, message queues and
  files are then opened under these names, those of a barrier under its id
  and one of three suffixes.  What is drawn is a parameter, so that the results
  are about any draws.

    • `generateUniqueName_eq_iff` — base name and random value can both be
      told from the name;
    • `names_distinct` — no two objects of a run share a name, and runs share one only
      where they drew the same value for it; each name is one that the system
      accepts.
-/
import Mathlib.Algebra.Ring.Nat
import Mathlib.Data.List.Infix

namespace Akbench

/-! ## §1. `GenerateUniqueName`. -/

/-- The last `n` hexadecimal digits, with leading zeros. -/
def hexDigits : Nat → Nat → List Char
  | 0, _ => []
  | n + 1, v => hexDigits n (v / 16) ++ [Nat.digitChar (v % 16)]

/-- `s.rfind(c)`. -/
def rfind (c : Char) : List Char → Option Nat
  | [] => none
  | d :: s =>
      match rfind c s with
      | some pos => some (pos + 1)
      | none => if d = c then some 0 else none

/-- `GenerateUniqueName`, once it has drawn a value. -/
def generateUniqueName (randomValue : UInt32) (baseName : String) : String :=
  -- `{:08x}`
  let hexSuffix := String.ofList (hexDigits 8 randomValue.toNat)
  match rfind '.' baseName.toList with
  -- in front of the extension
  | some dotPos =>
      String.ofList (baseName.toList.take dotPos) ++ "_" ++ hexSuffix ++
        String.ofList (baseName.toList.drop dotPos)
  | none => baseName ++ "_" ++ hexSuffix

/-! ## §2. What is in such a name. -/

theorem length_hexDigits (n v : Nat) : (hexDigits n v).length = n := by
  induction n generalizing v with
  | zero => rfl
  | succ n ih => rw [hexDigits, List.length_append, ih, List.length_singleton]

theorem digitChar_mem (d : Nat) (hd : d < 16) : Nat.digitChar d ∈ "0123456789abcdef".toList := by
  have hall : ∀ d : Fin 16, Nat.digitChar d.val ∈ "0123456789abcdef".toList := by decide
  exact hall ⟨d, hd⟩

theorem mem_hexDigits {c : Char} {n v : Nat} (h : c ∈ hexDigits n v) :
    c ∈ "0123456789abcdef".toList := by
  induction n generalizing v with
  | zero => cases h
  | succ n ih =>
      rw [hexDigits, List.mem_append, List.mem_singleton] at h
      rcases h with h | rfl
      · exact ih h
      · exact digitChar_mem _ (Nat.mod_lt _ (by decide))

theorem digitChar_inj {d d' : Nat} (hd : d < 16) (hd' : d' < 16)
    (h : Nat.digitChar d = Nat.digitChar d') : d = d' := by
  have hall : ∀ d d' : Fin 16, Nat.digitChar d.val = Nat.digitChar d'.val → d = d' := by decide
  exact congrArg Fin.val (hall ⟨d, hd⟩ ⟨d', hd'⟩ h)

/-- Digits determine the number. -/
theorem hexDigits_inj {n v w : Nat} (hv : v < 16 ^ n) (hw : w < 16 ^ n)
    (h : hexDigits n v = hexDigits n w) : v = w := by
  induction n generalizing v w with
  | zero => omega
  | succ n ih =>
      rw [hexDigits, hexDigits] at h
      obtain ⟨hinit, hlast⟩ := List.append_inj' h rfl
      injection hlast with hlast _
      have hmod := digitChar_inj (Nat.mod_lt v (by decide)) (Nat.mod_lt w (by decide)) hlast
      have hdiv := ih (by omega) (by omega) hinit
      omega

theorem rfind_of_notMem {c : Char} {s : List Char} (h : c ∉ s) : rfind c s = none := by
  induction s with
  | nil => rfl
  | cons d s ih =>
      rw [List.mem_cons, not_or] at h
      rw [rfind, ih h.2, if_neg (Ne.symm h.1)]

theorem rfind_append {c : Char} {before after : List Char} (h : c ∉ after) :
    rfind c (before ++ c :: after) = some before.length := by
  induction before with
  | nil =>
      rw [List.nil_append, rfind, rfind_of_notMem h, if_pos rfl]
      rfl
  | cons d before ih =>
      rw [List.cons_append, rfind, ih]
      rfl

/-- An extension, or nothing behind a name without one. -/
def IsExtension (stem extension : List Char) : Prop :=
  (extension = [] ∧ '.' ∉ stem) ∨ ∃ e, extension = '.' :: e ∧ '.' ∉ e

theorem exists_extension (s : List Char) :
    ∃ stem extension, s = stem ++ extension ∧ IsExtension stem extension := by
  induction s with
  | nil => exact ⟨[], [], rfl, .inl ⟨rfl, nofun⟩⟩
  | cons c s ih =>
      obtain ⟨stem, extension, rfl, h⟩ := ih
      rcases h with ⟨rfl, hstem⟩ | hdot
      · by_cases hc : c = '.'
        · subst hc
          rw [List.append_nil]
          exact ⟨[], '.' :: stem, rfl, .inr ⟨stem, rfl, hstem⟩⟩
        · refine ⟨c :: stem, [], rfl, .inl ⟨rfl, ?_⟩⟩
          rw [List.mem_cons, not_or]
          exact ⟨Ne.symm hc, hstem⟩
      · exact ⟨c :: stem, extension, rfl, .inr hdot⟩

/-- A name has one extension. -/
theorem IsExtension.unique {stem stem' extension extension' : List Char}
    (h : IsExtension stem extension) (h' : IsExtension stem' extension')
    (heq : stem ++ extension = stem' ++ extension') :
    stem = stem' ∧ extension = extension' := by
  have hfind : ∀ {s t : List Char}, IsExtension s t →
      rfind '.' (s ++ t) = if t = [] then none else some s.length := by
    intro s t hst
    rcases hst with ⟨rfl, hs⟩ | ⟨e, rfl, he⟩
    · rw [List.append_nil, rfind_of_notMem hs, if_pos rfl]
    · rw [rfind_append he, if_neg (List.cons_ne_nil _ _)]
  have hpos := hfind h
  rw [heq, hfind h'] at hpos
  by_cases ht : extension = []
  · rw [if_pos ht] at hpos
    have ht' : extension' = [] := by
      by_contra hne
      rw [if_neg hne] at hpos
      cases hpos
    rw [ht, ht', List.append_nil, List.append_nil] at heq
    exact ⟨heq, ht.trans ht'.symm⟩
  · rw [if_neg ht] at hpos
    by_cases ht' : extension' = []
    · rw [if_pos ht'] at hpos
      cases hpos
    · rw [if_neg ht', Option.some_inj] at hpos
      exact List.append_inj heq hpos.symm

/-- **The value is put in front of the extension.** -/
theorem toList_generateUniqueName {baseName : String} {stem extension : List Char}
    (hbase : baseName.toList = stem ++ extension) (h : IsExtension stem extension)
    (randomValue : UInt32) :
    (generateUniqueName randomValue baseName).toList =
      (stem ++ '_' :: hexDigits 8 randomValue.toNat) ++ extension := by
  unfold generateUniqueName
  rcases h with ⟨rfl, hstem⟩ | ⟨e, rfl, he⟩
  · rw [List.append_nil] at hbase
    rw [hbase, rfind_of_notMem hstem]
    simp [hbase]
  · rw [hbase, rfind_append he]
    simp

theorem notMem_hexDigits {c : Char} {n v : Nat} (hc : c ∉ "0123456789abcdef".toList) :
    c ∉ hexDigits n v := fun h => hc (mem_hexDigits h)

/-- It does not make a new extension. -/
theorem IsExtension.insert {stem extension : List Char} (h : IsExtension stem extension)
    (v : Nat) : IsExtension (stem ++ '_' :: hexDigits 8 v) extension := by
  rcases h with ⟨rfl, hstem⟩ | hdot
  · refine .inl ⟨rfl, ?_⟩
    rw [List.mem_append, List.mem_cons, not_or, not_or]
    exact ⟨hstem, by decide, notMem_hexDigits (by decide)⟩
  · exact .inr hdot

/-- **Nothing is lost**: base name and random value can be told from the name. -/
theorem generateUniqueName_eq_iff {randomValue randomValue' : UInt32} {baseName baseName' :
    String} :
    generateUniqueName randomValue baseName = generateUniqueName randomValue' baseName' ↔
      randomValue = randomValue' ∧ baseName = baseName' := by
  constructor
  · intro heq
    obtain ⟨stem, extension, hbase, hext⟩ := exists_extension baseName.toList
    obtain ⟨stem', extension', hbase', hext'⟩ := exists_extension baseName'.toList
    have hlist := congrArg String.toList heq
    rw [toList_generateUniqueName hbase hext, toList_generateUniqueName hbase' hext'] at hlist
    obtain ⟨hfront, hsame⟩ := (hext.insert _).unique (hext'.insert _) hlist
    obtain ⟨hstem, hdigits⟩ := List.append_inj' hfront (by
      rw [List.length_cons, List.length_cons, length_hexDigits, length_hexDigits])
    injection hdigits with _ hdigits
    have hvalue := hexDigits_inj randomValue.toNat_lt randomValue'.toNat_lt hdigits
    refine ⟨UInt32.toNat_inj.mp hvalue, String.toList_inj.mp ?_⟩
    rw [hbase, hbase', hstem, hsame]
  · rintro ⟨rfl, rfl⟩
    rfl

/-! ## §3. The objects of the benchmarks. -/

namespace Names

/-- The constants of the benchmark files, in the order of the files. -/
inductive Constant where
  | barrierLatencyId
  | fifoBarrierId
  | fifoPath
  | mmapFilePath
  | mmapBarrierId
  | mqBarrierId
  | mqName
  | pipeBarrierId
  | semNameParent
  | semNameChild
  | shmName
  | shmBarrierId
  | tcpBarrierId
  | socketPath
  | udsBarrierId
  deriving DecidableEq, Repr

def Constant.all : List Constant :=
  [barrierLatencyId, fifoBarrierId, fifoPath, mmapFilePath, mmapBarrierId, mqBarrierId, mqName,
    pipeBarrierId, semNameParent, semNameChild, shmName, shmBarrierId, tcpBarrierId, socketPath,
    udsBarrierId]

theorem Constant.mem_all (c : Constant) : c ∈ all := by
  cases c <;> decide

/-- The base name. -/
def Constant.baseName : Constant → String
  | barrierLatencyId => "/BarrierLatencyTest"
  | fifoBarrierId => "/fifo_benchmark"
  | fifoPath => "/tmp/fifo_benchmark_pipe"
  | mmapFilePath => "/tmp/mmap_bandwidth_test.dat"
  | mmapBarrierId => "/mmap_benchmark"
  | mqBarrierId => "/mq_benchmark"
  | mqName => "/mq_benchmark_queue"
  | pipeBarrierId => "/pipe_benchmark"
  | semNameParent => "/sem_latency_parent"
  | semNameChild => "/sem_latency_child"
  | shmName => "/shm_bandwidth_test"
  | shmBarrierId => "/shm_benchmark"
  | tcpBarrierId => "/tcp_benchmark"
  | socketPath => "/tmp/unix_domain_socket_test.sock"
  | udsBarrierId => "/uds_benchmark"

/-- It is the id of a barrier. -/
def Constant.isBarrierId : Constant → Bool
  | barrierLatencyId | fifoBarrierId | mmapBarrierId | mqBarrierId | pipeBarrierId | shmBarrierId
  | tcpBarrierId | udsBarrierId => true
  | fifoPath | mmapFilePath | mqName | semNameParent | semNameChild | shmName | socketPath => false

/-- It is a path, and not the name of a POSIX object. -/
def Constant.isPath : Constant → Bool
  | fifoPath | mmapFilePath | socketPath => true
  | barrierLatencyId | fifoBarrierId | mmapBarrierId | mqBarrierId | mqName | pipeBarrierId
  | semNameParent | semNameChild | shmName | shmBarrierId | tcpBarrierId | udsBarrierId => false

/-- What a file makes of its constant. -/
inductive Part where
  /-- The object of that name itself. -/
  | whole
  /-- `init_sem_id`. -/
  | initSem
  /-- `shm_sem_id`. -/
  | shmSem
  /-- `shm_id`. -/
  | shm
  deriving DecidableEq, Repr

def Part.suffix : Part → String
  | whole => ""
  | initSem => "_init_sem"
  | shmSem => "_shm_sem"
  | shm => "_shm"

/-- An object that `akbench` opens or unlinks: the ids of barriers stand for
their parts only. -/
structure Object where
  constant : Constant
  part : Part
  valid : part = .whole ↔ constant.isBarrierId = false

/-- The random values of a run of `akbench`. -/
abbrev Draw := Constant → UInt32

/-- The constant of a run. -/
def Constant.value (c : Constant) (draw : Draw) : String :=
  generateUniqueName (draw c) c.baseName

/-- The name of an object. -/
def Object.name (x : Object) (draw : Draw) : String := x.constant.value draw ++ x.part.suffix

variable {c c' : Constant} {x y : Object} {draw draw' : Draw}

theorem Object.ext (hconstant : x.constant = y.constant) (hpart : x.part = y.part) : x = y := by
  cases x
  cases y
  dsimp only at hconstant hpart
  subst hconstant hpart
  rfl

theorem Constant.baseName_inj (h : c.baseName = c'.baseName) : c = c' := by
  have hall : ∀ c, c ∈ all → ∀ c', c' ∈ all → c.baseName = c'.baseName → c = c' := by decide
  exact hall c c.mem_all c' c'.mem_all h

/-! ## §4. Names do not collide. -/

/-- The last character of a constant is that of its extension, or a digit. -/
def Constant.lasts (c : Constant) : List Char :=
  match rfind '.' c.baseName.toList with
  | some _ => c.baseName.toList.getLast?.toList
  | none => "0123456789abcdef".toList

theorem Constant.getLast?_value (c : Constant) (draw : Draw) :
    ∃ l, (c.value draw).toList.getLast? = some l ∧ l ∈ c.lasts := by
  obtain ⟨stem, extension, hbase, hext⟩ := exists_extension c.baseName.toList
  have hlist := toList_generateUniqueName hbase hext (draw c)
  unfold Constant.value Constant.lasts
  rw [hlist, hbase]
  rcases hext with ⟨rfl, hstem⟩ | ⟨e, rfl, he⟩
  · have hne : hexDigits 8 (draw c).toNat ≠ [] := by
      intro hnil
      have hlen := length_hexDigits 8 (draw c).toNat
      rw [hnil] at hlen
      cases hlen
    obtain ⟨l, hl⟩ := List.getLast?_isSome.mpr hne |> Option.isSome_iff_exists.mp
    rw [List.append_nil, List.append_nil, rfind_of_notMem hstem]
    refine ⟨l, ?_, mem_hexDigits (List.mem_of_getLast? hl)⟩
    rw [List.getLast?_append, List.getLast?_cons, hl]
    simp
  · obtain ⟨l, hl⟩ := List.getLast?_isSome.mpr (List.cons_ne_nil '.' e) |>
      Option.isSome_iff_exists.mp
    rw [rfind_append he]
    refine ⟨l, ?_, ?_⟩
    · rw [List.getLast?_append, hl]
      rfl
    · dsimp only
      rw [List.getLast?_append, hl]
      exact List.mem_singleton.mpr rfl

theorem Constant.m_notMem_lasts (c : Constant) : 'm' ∉ c.lasts := by
  cases c <;> decide

theorem Part.getLast?_suffix {p : Part} (h : p ≠ .whole) :
    p.suffix.toList.getLast? = some 'm' := by
  cases p with
  | whole => exact absurd rfl h
  | initSem | shmSem | shm => decide

/-- Only the name of a part ends in `m`. -/
theorem whole_iff_of_name_eq (h : x.name draw = y.name draw') :
    x.part = .whole ↔ y.part = .whole := by
  have hone : ∀ {x y : Object} {draw draw' : Draw}, x.name draw = y.name draw' →
      x.part = .whole → y.part = .whole := by
    intro x y draw draw' h hx
    by_contra hy
    have hlist := congrArg String.toList h
    unfold Object.name at hlist
    rw [hx, String.toList_append, String.toList_append] at hlist
    obtain ⟨l, hl, hmem⟩ := x.constant.getLast?_value draw
    have hlast := congrArg List.getLast? hlist
    rw [show Part.whole.suffix.toList = [] from rfl, List.append_nil, hl, List.getLast?_append,
      Part.getLast?_suffix hy] at hlast
    injection hlast with hlast
    rw [hlast] at hmem
    exact x.constant.m_notMem_lasts hmem
  exact ⟨hone h, hone h.symm⟩

/-- No suffix of a part ends in another. -/
theorem Part.eq_of_suffix {p q : Part} (hwhole : p = .whole ↔ q = .whole)
    (h : p.suffix.toList <:+ q.suffix.toList) : p = q := by
  cases p <;> cases q <;> first | rfl | exact absurd hwhole (by decide) | exact absurd h (by decide)

theorem part_eq_of_name_eq (h : x.name draw = y.name draw') : x.part = y.part := by
  have hlist := congrArg String.toList h
  unfold Object.name at hlist
  rw [String.toList_append, String.toList_append] at hlist
  have hx : x.part.suffix.toList <:+ (x.constant.value draw).toList ++ x.part.suffix.toList :=
    List.suffix_append _ _
  have hy : y.part.suffix.toList <:+ (x.constant.value draw).toList ++ x.part.suffix.toList :=
    hlist ▸ List.suffix_append _ _
  rcases List.suffix_or_suffix_of_suffix hx hy with hsuffix | hsuffix
  · exact Part.eq_of_suffix (whole_iff_of_name_eq h) hsuffix
  · exact (Part.eq_of_suffix (whole_iff_of_name_eq h).symm hsuffix).symm

/-- **Two objects share a name** only if they are one, opened by runs that drew
the same value. -/
theorem name_eq_iff :
    x.name draw = y.name draw' ↔ x = y ∧ draw x.constant = draw' y.constant := by
  constructor
  · intro h
    have hpart := part_eq_of_name_eq h
    have hlist := congrArg String.toList h
    unfold Object.name at hlist
    rw [hpart, String.toList_append, String.toList_append] at hlist
    have hvalue := String.toList_inj.mp (List.append_cancel_right hlist)
    obtain ⟨hdraw, hbase⟩ := generateUniqueName_eq_iff.mp hvalue
    exact ⟨Object.ext (Constant.baseName_inj hbase) hpart, hdraw⟩
  · rintro ⟨rfl, hdraw⟩
    unfold Object.name Constant.value
    rw [hdraw]

/-! ## §5. Names the system accepts. -/

theorem length_name (x : Object) (draw : Draw) :
    (x.name draw).toList.length =
      x.constant.baseName.toList.length + 9 + x.part.suffix.toList.length := by
  obtain ⟨stem, extension, hbase, hext⟩ := exists_extension x.constant.baseName.toList
  have hlist := toList_generateUniqueName hbase hext (draw x.constant)
  unfold Object.name Constant.value
  rw [String.toList_append, hlist, hbase]
  simp only [List.length_append, List.length_cons, length_hexDigits]
  omega

theorem Part.length_suffix (p : Part) : p.suffix.toList.length ≤ 9 := by
  cases p <;> decide

theorem Part.slash_notMem_suffix (p : Part) : '/' ∉ p.suffix.toList := by
  cases p <;> decide

/-- The base name of a POSIX object has one slash, in front, and no dot. -/
theorem Constant.baseName_cons (h : c.isPath = false) :
    ∃ s, c.baseName.toList = '/' :: s ∧ '/' ∉ s ∧ '.' ∉ c.baseName.toList ∧ s.length ≤ 20 := by
  have hall : ∀ c, c ∈ all → c.isPath = false → c.baseName.toList.head? = some '/' ∧
      '/' ∉ c.baseName.toList.tail ∧ '.' ∉ c.baseName.toList ∧
        c.baseName.toList.tail.length ≤ 20 := by
    decide
  obtain ⟨hhead, hslash, hdot, hlen⟩ := hall c c.mem_all h
  refine ⟨c.baseName.toList.tail, ?_, hslash, hdot, hlen⟩
  exact (List.head?_eq_some_iff.mp hhead).elim fun s hs => by rw [hs, List.tail_cons]

/-- **`sem_open`, `shm_open` and `mq_open` take the names of POSIX objects.** -/
theorem posix_name (h : x.constant.isPath = false) :
    ∃ s, (x.name draw).toList = '/' :: s ∧ '/' ∉ s ∧ s.length ≤ 251 := by
  obtain ⟨s, hbase, hslash, hdot, hlen⟩ := Constant.baseName_cons h
  have hlist := toList_generateUniqueName (List.append_nil _).symm (.inl ⟨rfl, hdot⟩)
    (draw x.constant)
  refine ⟨s ++ '_' :: hexDigits 8 (draw x.constant).toNat ++ x.part.suffix.toList, ?_, ?_, ?_⟩
  · unfold Object.name Constant.value
    rw [String.toList_append, hlist, hbase, List.append_nil]
    rfl
  · simp only [List.mem_append, List.mem_cons, not_or]
    exact ⟨⟨hslash, by decide, notMem_hexDigits (by decide)⟩, x.part.slash_notMem_suffix⟩
  · have hsuffix := x.part.length_suffix
    simp only [List.length_append, List.length_cons, length_hexDigits]
    omega

/-- **The names of `akbench`**: whatever two runs, or one, have drawn, two
objects share a name only if they are one and the runs drew the same value
for it; POSIX objects have a slash in front of their names and no other, and
are short enough; the socket's path fits into `sun_path`. -/
theorem names_distinct (draw draw' : Draw) (x y : Object) :
    (x.name draw = y.name draw' ↔ x = y ∧ draw x.constant = draw' y.constant) ∧
      (x.constant.isPath = false →
        ∃ s, (x.name draw).toList = '/' :: s ∧ '/' ∉ s ∧ s.length ≤ 251) ∧
      (x.constant = .socketPath → (x.name draw).toList.length ≤ 107) := by
  refine ⟨name_eq_iff, posix_name, fun hsocket => ?_⟩
  have hpart : x.part = .whole := x.valid.mpr (by rw [hsocket]; rfl)
  rw [length_name, hsocket, hpart]
  decide

end Names

end Akbench
