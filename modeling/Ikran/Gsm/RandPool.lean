import Ikran.Gsm.Srtp
import Mathlib.Data.List.Nodup
import Mathlib.Data.List.Range

/-!
# The pool of random bytes

The bytes that `gsm_sdp_crypto.c` makes keys of. They are taken from a pool, which is filled while the phone is
idle, and from the generator when the pool is empty. A byte is known by its number among all bytes that the
generator, or `cpr_rand` after a failure, has delivered. A place of the pool that was never written holds 0.
-/

namespace Gsm

namespace Srtp

abbrev randPoolSize : ℕ := 300

abbrev randReqLimit : ℕ := 256

/-- `platGenerateCryptoRand`: how many bytes a call delivers, unless it fails. -/
structure Generator where
  bytes : ℕ → ℕ → Option ℕ
  delivers : ∀ call request k, bytes call request = some k → 1 ≤ k ∧ k ≤ request

/-- The pool, with what the generator has done. -/
structure RandPool where
  /-- `rand_pool`. -/
  pool : List ℕ := List.replicate randPoolSize 0
  /-- `rand_pool_bytes`. -/
  poolBytes : ℕ := 0
  calls : ℕ := 0
  delivered : ℕ := 0

namespace RandPool

variable (g : Generator) (s : RandPool)

/-- The bytes of a request, or the byte of `cpr_rand` that stands for them. -/
def draw (request : ℕ) : List ℕ × RandPool :=
  let k := (g.bytes s.calls request).getD 1
  (List.range' (s.delivered + 1) k, { s with calls := s.calls + 1, delivered := s.delivered + k })

/-- Bytes are written to the pool, when there is room for them. -/
def write (i : ℕ) (bytes : List ℕ) : Option RandPool :=
  if i + bytes.length ≤ randPoolSize then
    some { s with pool := s.pool.take i ++ bytes ++ s.pool.drop (i + bytes.length) }
  else none

/-- Bytes are read from the pool, when they are in it. -/
def read (i n : ℕ) : Option (List ℕ) :=
  if i + n ≤ randPoolSize then some ((s.pool.drop i).take n) else none

/-- The loop of `gsmsdp_cache_crypto_keys`, for as many turns as given. -/
def fillLoop (numberToFill : ℕ) : ℕ → ℕ → RandPool → Option RandPool
  | turns, accumulateBytes, s =>
    if accumulateBytes < numberToFill then
      match turns with
      | 0 => none
      | turns + 1 =>
        let (bytes, s) := s.draw g (min (numberToFill - accumulateBytes) randReqLimit)
        (s.write accumulateBytes bytes).bind (fillLoop numberToFill turns (accumulateBytes + bytes.length))
    else some s

def gsmsdpCacheCryptoKeys (idle : Bool) : Option RandPool :=
  if s.poolBytes = randPoolSize ∨ idle = false then some s
  else
    (s.fillLoop g (randPoolSize - s.poolBytes) (randPoolSize - s.poolBytes) 0).map
      fun s => { s with poolBytes := randPoolSize }

def gsmsdpGetRandFromCachedPool (reqBytes : ℕ) : Option (List ℕ × RandPool) :=
  if s.poolBytes = 0 then some ([], s)
  else
    let bytes := if s.poolBytes ≥ reqBytes then reqBytes else s.poolBytes
    (s.read (randPoolSize - s.poolBytes) bytes).map fun random => (random, { s with poolBytes := s.poolBytes - bytes })

/-- The loop of `gsmsdp_generate_key`, for as many turns as given. -/
def generateLoop (totalBytes : ℕ) : ℕ → List ℕ → RandPool → Option (List ℕ × RandPool)
  | turns, random, s =>
    if random.length < totalBytes then
      match turns with
      | 0 => none
      | turns + 1 =>
        (s.gsmsdpGetRandFromCachedPool (totalBytes - random.length)).bind fun (bytes, s) =>
          if bytes ≠ [] then generateLoop totalBytes turns (random ++ bytes) s
          else
            let (bytes, s) := s.draw g (min (totalBytes - random.length) randReqLimit)
            generateLoop totalBytes turns (random ++ bytes) s
    else some (random, s)

/-- `gsmsdp_generate_key`: the bytes of the key and of the salt. -/
def gsmsdpGenerateKey (algorithmId : AlgorithmId) : Option ((List ℕ × List ℕ) × RandPool) :=
  let keyLen := if algorithmId = .aes128Counter then aes128CounterKeySize else maxKeySize
  let saltLen := if algorithmId = .aes128Counter then aes128CounterSaltSize else maxSaltSize
  (generateLoop g (keyLen + saltLen) (keyLen + saltLen) [] s).map
    fun (random, s) => ((random.take keyLen, (random.drop keyLen).take saltLen), s)

inductive Op
  | cache (idle : Bool)
  | generate (algorithmId : AlgorithmId)

/-- A call, with the keys that it generates. -/
def step : Op → Option (List (List ℕ × List ℕ) × RandPool)
  | .cache idle => (s.gsmsdpCacheCryptoKeys g idle).map fun s => ([], s)
  | .generate algorithmId => (s.gsmsdpGenerateKey g algorithmId).map fun (key, s) => ([key], s)

/-- The keys that are generated in a run, and the pool behind it. -/
def run : RandPool → List Op → Option (List (List ℕ × List ℕ) × RandPool)
  | s, [] => some ([], s)
  | s, op :: ops => (s.step g op).bind fun (keys, s) => (run s ops).map fun (keys', s) => (keys ++ keys', s)

/-! ## What is unread is unused -/

def unread : List ℕ := s.pool.drop (randPoolSize - s.poolBytes)

/-- The bytes that were handed out and those that are unread are all different, and were delivered. -/
structure Unused (used : List ℕ) (s : RandPool) : Prop where
  length : s.pool.length = randPoolSize
  bytes : s.poolBytes ≤ randPoolSize
  nodup : (used ++ s.unread).Nodup
  delivered : ∀ x ∈ used ++ s.unread, 0 < x ∧ x ≤ s.delivered

variable {g s} {used : List ℕ}

theorem draw_spec (s : RandPool) (request : ℕ) (h : 0 < request) :
    ∃ k, 0 < k ∧ k ≤ request ∧ s.draw g request = (List.range' (s.delivered + 1) k,
      { s with calls := s.calls + 1, delivered := s.delivered + k }) := by
  cases hk : g.bytes s.calls request with
  | none => exact ⟨1, Nat.one_pos, h, by rw [draw, hk]; rfl⟩
  | some k => exact ⟨k, (g.delivers _ _ _ hk).1, (g.delivers _ _ _ hk).2, by rw [draw, hk]; rfl⟩

theorem nodup_append_range' {l : List ℕ} {n : ℕ} (hl : l.Nodup) (hle : ∀ x ∈ l, 0 < x ∧ x ≤ n) (k : ℕ) :
    (l ++ List.range' (n + 1) k).Nodup ∧ ∀ x ∈ l ++ List.range' (n + 1) k, 0 < x ∧ x ≤ n + k := by
  refine ⟨hl.append (List.nodup_range' ..) fun x hx hx' => ?_, fun x hx => ?_⟩
  · have hlt := List.mem_range'_1.mp hx'
    exact absurd (hle x hx).2 (by omega)
  · rcases List.mem_append.mp hx with hx | hx
    · exact ⟨(hle x hx).1, by have := (hle x hx).2; omega⟩
    · have hlt := List.mem_range'_1.mp hx
      omega

/-- The pool is filled with the bytes that are delivered next. By induction on the turns. -/
theorem fillLoop_spec {n turns acc : ℕ} (hn : n ≤ randPoolSize) (hlen : s.pool.length = randPoolSize)
    (hacc : acc ≤ n) (hturns : n ≤ acc + turns) :
    ∃ s', s.fillLoop g n turns acc = some s' ∧ s'.delivered = s.delivered + (n - acc) ∧
      s'.pool = s.pool.take acc ++ List.range' (s.delivered + 1) (n - acc) ++ s.pool.drop n := by
  induction turns generalizing s acc with
  | zero =>
    obtain rfl : acc = n := by omega
    rw [fillLoop, if_neg (lt_irrefl acc)]
    exact ⟨s, rfl, by simp, by simp⟩
  | succ turns ih =>
    rw [fillLoop]
    by_cases hlt : acc < n
    · rw [if_pos hlt]
      obtain ⟨k, hpos, hle, hdraw⟩ := draw_spec (g := g) s (min (n - acc) randReqLimit)
        (lt_min (Nat.sub_pos_of_lt hlt) (by decide))
      have hkn : acc + k ≤ n := by have := hle.trans (min_le_left _ _); omega
      dsimp only
      rw [hdraw]
      dsimp only
      rw [write, List.length_range', if_pos (by omega), Option.bind_some]
      obtain ⟨s', hs', hdelivered, hpool⟩ := ih (s := { s with
        pool := s.pool.take acc ++ List.range' (s.delivered + 1) k ++ s.pool.drop (acc + k)
        calls := s.calls + 1, delivered := s.delivered + k })
        (by simp only [List.length_append, List.length_take, List.length_range', List.length_drop]; omega)
        hkn (by omega)
      refine ⟨s', hs', by rw [hdelivered]; dsimp only; omega, ?_⟩
      rw [hpool]
      dsimp only
      have htake : (s.pool.take acc ++ List.range' (s.delivered + 1) k).length = acc + k := by
        rw [List.length_append, List.length_take, List.length_range', min_eq_left (by omega)]
      have hrest : (s.pool.take acc ++ List.range' (s.delivered + 1) k ++ s.pool.drop (acc + k)).drop n =
          s.pool.drop n := by
        rw [List.drop_append, htake, List.drop_eq_nil_of_le (by omega), List.nil_append, List.drop_drop]
        congr 1
        omega
      rw [List.take_append_of_le_length htake.ge, List.take_of_length_le htake.le, hrest,
        List.append_assoc (s.pool.take acc), show s.delivered + k + 1 = s.delivered + 1 + k by omega,
        show n - acc = k + (n - (acc + k)) by omega, ← List.range'_append_1]
    · rw [if_neg hlt]
      obtain rfl : acc = n := by omega
      exact ⟨s, rfl, by simp, by simp⟩

theorem Unused.grow (h : Unused used s) {used' : List ℕ} {s' : RandPool} (k : ℕ)
    (hlen : s'.pool.length = randPoolSize) (hbytes : s'.poolBytes ≤ randPoolSize)
    (hperm : (used' ++ s'.unread).Perm (used ++ s.unread ++ List.range' (s.delivered + 1) k))
    (hdelivered : s'.delivered = s.delivered + k) : Unused used' s' := by
  obtain ⟨hnodup, hle⟩ := nodup_append_range' h.nodup h.delivered k
  refine ⟨hlen, hbytes, hperm.nodup_iff.mpr hnodup, fun x hx => ?_⟩
  rw [hdelivered]
  exact hle x (hperm.mem_iff.mp hx)

theorem Unused.cache (h : Unused used s) (idle : Bool) :
    ∃ s', s.gsmsdpCacheCryptoKeys g idle = some s' ∧ Unused used s' := by
  rw [gsmsdpCacheCryptoKeys]
  split_ifs with hskip
  · exact ⟨s, rfl, h⟩
  · have hlen := h.length
    obtain ⟨s', hs', hdelivered, hpool⟩ := @fillLoop_spec g s (randPoolSize - s.poolBytes)
      (randPoolSize - s.poolBytes) 0 (Nat.sub_le _ _) hlen (Nat.zero_le _) (by omega)
    rw [List.take_zero, List.nil_append, Nat.sub_zero] at hpool
    rw [hs']
    refine ⟨_, rfl, h.grow (randPoolSize - s.poolBytes) ?_ le_rfl ?_ hdelivered⟩
    · rw [hpool, List.length_append, List.length_range', List.length_drop]
      omega
    · rw [unread, Nat.sub_self, List.drop_zero, hpool, List.append_assoc used]
      exact List.perm_append_comm.append_left used

theorem Unused.fromPool (h : Unused used s) (len : ℕ) :
    ∃ bytes s', s.gsmsdpGetRandFromCachedPool len = some (bytes, s') ∧ Unused (used ++ bytes) s' ∧
      bytes.length ≤ len := by
  rw [gsmsdpGetRandFromCachedPool]
  by_cases hempty : s.poolBytes = 0
  · rw [if_pos hempty]
    exact ⟨[], s, rfl, by rwa [List.append_nil], Nat.zero_le _⟩
  · have hbytes := h.bytes
    have hmin : (if s.poolBytes ≥ len then len else s.poolBytes) = min len s.poolBytes := by
      split_ifs <;> omega
    rw [if_neg hempty]
    dsimp only
    rw [hmin, read, if_pos (by omega)]
    refine ⟨_, _, rfl, h.grow 0 h.length (by dsimp only; omega) ?_ rfl, ?_⟩
    · have hdrop : s.pool.drop (randPoolSize - (s.poolBytes - min len s.poolBytes)) =
          s.unread.drop (min len s.poolBytes) := by
        rw [unread, List.drop_drop]
        congr 1
        omega
      rw [List.range'_zero, List.append_nil, unread, List.append_assoc]
      dsimp only
      rw [hdrop, ← unread, List.take_append_drop]
    · exact (List.length_take_le _ _).trans (min_le_left _ _)

theorem Unused.draw (h : Unused used s) (request : ℕ) (hpos : 0 < request) :
    ∃ bytes s', s.draw g request = (bytes, s') ∧ Unused (used ++ bytes) s' ∧ 0 < bytes.length ∧
      bytes.length ≤ request := by
  obtain ⟨k, hk, hle, hdraw⟩ := draw_spec (g := g) s request hpos
  refine ⟨_, _, hdraw, h.grow k h.length h.bytes ?_ rfl, by simpa using hk, by simpa using hle⟩
  rw [List.append_assoc, List.append_assoc]
  exact List.perm_append_comm.append_left used

/-- Bytes that are generated are added to the ones that were handed out. By induction on the turns. -/
theorem generateLoop_spec {total turns : ℕ} {random : List ℕ} (h : Unused (used ++ random) s)
    (hlen : random.length ≤ total) (hturns : total ≤ random.length + turns) :
    ∃ random' s', generateLoop g total turns random s = some (random', s') ∧ random'.length = total ∧
      Unused (used ++ random') s' := by
  induction turns generalizing s random with
  | zero =>
    rw [generateLoop, if_neg (by omega)]
    exact ⟨random, s, rfl, by omega, h⟩
  | succ turns ih =>
    rw [generateLoop]
    by_cases hlt : random.length < total
    · rw [if_pos hlt]
      obtain ⟨bytes, s₁, hpool, hunused, hle⟩ := h.fromPool (total - random.length)
      dsimp only
      rw [hpool, Option.bind_some]
      dsimp only
      split_ifs with hbytes
      · have hpos := List.length_pos_iff.mpr hbytes
        rw [List.append_assoc] at hunused
        exact ih hunused (by rw [List.length_append]; omega) (by rw [List.length_append]; omega)
      · obtain rfl := not_not.mp hbytes
        rw [List.append_nil] at hunused
        obtain ⟨bytes, s₂, hdraw, hunused, hpos, hle⟩ :=
          hunused.draw (g := g) (min (total - random.length) randReqLimit) (lt_min (Nat.sub_pos_of_lt hlt) (by decide))
        have hle' := hle.trans (min_le_left _ _)
        rw [hdraw]
        dsimp only
        rw [List.append_assoc] at hunused
        exact ih hunused (by rw [List.length_append]; omega) (by rw [List.length_append]; omega)
    · rw [if_neg hlt]
      exact ⟨random, s, rfl, by omega, h⟩

def keyBytes (k : List ℕ × List ℕ) : List ℕ := k.1 ++ k.2

/-- A key and its salt have their sizes. -/
def FullSize (k : List ℕ × List ℕ) : Prop :=
  k.1.length = aes128CounterKeySize ∧ k.2.length = aes128CounterSaltSize

theorem Unused.step (h : Unused used s) (op : Op) :
    ∃ keys s', s.step g op = some (keys, s') ∧ Unused (used ++ keys.flatMap keyBytes) s' ∧ ∀ k ∈ keys, FullSize k := by
  cases op with
  | cache idle =>
    obtain ⟨s', hs', hunused⟩ := h.cache (g := g) idle
    exact ⟨[], s', by rw [RandPool.step, hs']; rfl, by simpa using hunused, nofun⟩
  | generate algorithmId =>
    obtain ⟨random, s', hs', hlen, hunused⟩ := @generateLoop_spec g s used 30 30 []
      (by rwa [List.append_nil]) (Nat.zero_le _) le_rfl
    have hsizes : (if algorithmId = .aes128Counter then aes128CounterKeySize else maxKeySize) = 16 ∧
        (if algorithmId = .aes128Counter then aes128CounterSaltSize else maxSaltSize) = 14 := by
      cases algorithmId <;> decide
    refine ⟨[(random.take 16, (random.drop 16).take 14)], s', ?_, ?_, fun k hk => ?_⟩
    · rw [RandPool.step, gsmsdpGenerateKey, hsizes.1, hsizes.2]
      dsimp only
      rw [hs']
      rfl
    · have hall : (random.drop 16).take 14 = random.drop 16 := List.take_of_length_le (by rw [List.length_drop, hlen])
      simpa [keyBytes, hall] using hunused
    · obtain rfl := List.mem_singleton.mp hk
      simp [FullSize, hlen, aes128CounterKeySize, aes128CounterSaltSize]

theorem Unused.run (h : Unused used s) (ops : List Op) :
    ∃ keys s', s.run g ops = some (keys, s') ∧ Unused (used ++ keys.flatMap keyBytes) s' ∧ ∀ k ∈ keys, FullSize k := by
  induction ops generalizing s used with
  | nil => exact ⟨[], s, rfl, by simpa using h, nofun⟩
  | cons op ops ih =>
    obtain ⟨keys, s₁, hstep, hunused, hsize⟩ := h.step (g := g) op
    obtain ⟨keys', s₂, hrun, hunused', hsize'⟩ := ih hunused
    refine ⟨keys ++ keys', s₂, ?_, ?_, fun k hk => (List.mem_append.mp hk).elim (hsize k) (hsize' k)⟩
    · rw [RandPool.run, hstep, Option.bind_some]
      dsimp only
      rw [hrun]
      rfl
    · rwa [List.flatMap_append, ← List.append_assoc]

/-- **Random bytes are used once.** In every run, whatever the generator delivers, the pool is accessed within its
size, every key and salt is full, and their bytes are different ones that were delivered. -/
theorem run_unused (g : Generator) (ops : List Op) :
    ∃ keys s, ({} : RandPool).run g ops = some (keys, s) ∧ (keys.flatMap keyBytes).Nodup ∧
      (∀ x ∈ keys.flatMap keyBytes, 0 < x ∧ x ≤ s.delivered) ∧ ∀ k ∈ keys, FullSize k := by
  have hinit : Unused [] ({} : RandPool) :=
    ⟨List.length_replicate, Nat.zero_le _, by simp [unread], by simp [unread]⟩
  obtain ⟨keys, s, hrun, hunused, hsize⟩ := hinit.run (g := g) ops
  rw [List.nil_append] at hunused
  exact ⟨keys, s, hrun, (List.nodup_append.mp hunused.nodup).1,
    fun x hx => hunused.delivered x (List.mem_append_left _ hx), hsize⟩

end RandPool

end Srtp

end Gsm
