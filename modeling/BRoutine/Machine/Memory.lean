import Mathlib.Data.List.Pairwise
import Mathlib.Data.BitVec

/-!
# Byte memory

A memory gives a byte at every 64-bit address. `read` and `write` are the little-endian accesses
of eight bytes, and addresses wrap around. `Span` says which bytes an access, or a larger block,
covers; what an access does not cover it neither sees nor changes.
-/

namespace ByteMemory

abbrev Word := BitVec 64

/-- A byte at every address. -/
abbrev Memory := Word → BitVec 8

/-- The address `x` is one of the `n` bytes from `base` on. -/
def Span (base : Word) (n : Nat) (x : Word) : Prop :=
  (x - base).toNat < n

instance (base : Word) (n : Nat) (x : Word) : Decidable (Span base n x) :=
  inferInstanceAs (Decidable (_ < _))

/-- No address lies in both blocks. -/
def Apart (a : Word) (n : Nat) (b : Word) (k : Nat) : Prop :=
  ∀ x, Span a n x → ¬ Span b k x

/-- The eight bytes from `a` on, the lowest first. -/
def read (m : Memory) (a : Word) : Word :=
  m (a + 7) ++ m (a + 6) ++ m (a + 5) ++ m (a + 4) ++ m (a + 3) ++ m (a + 2) ++ m (a + 1) ++ m a

/-- Eight bytes are stored from `a` on, the lowest first. -/
def write (m : Memory) (a v : Word) : Memory := fun x =>
  if Span a 8 x then v.extractLsb' (8 * (x - a).toNat) 8 else m x

/-! ### Blocks -/

theorem Apart.symm {a b : Word} {n k : Nat} (apart : Apart a n b k) : Apart b k a n :=
  fun x inside within => apart x within inside

/-- Eight bytes at an offset of a block lie in the block. -/
theorem Span.inside {a x offset : Word} {n : Nat} (span : Span (a + offset) 8 x)
    (fits : offset.toNat + 8 ≤ n) : Span a n x := by
  unfold Span at *
  bv_omega

theorem Apart.inside {a b offset : Word} {n k : Nat} (apart : Apart a n b k)
    (fits : offset.toNat + 8 ≤ n) : Apart (a + offset) 8 b k :=
  fun x span => apart x (span.inside fits)

theorem apart_offsets {x y : Word} (base : Word) (below : 8 ≤ (x - y).toNat)
    (above : 8 ≤ (y - x).toNat) : Apart (base + x) 8 (base + y) 8 := by
  intro z first second
  unfold Span at *
  bv_omega

/-! ### Accesses -/

theorem write_outside {m : Memory} {a v x : Word} (outside : ¬ Span a 8 x) :
    write m a v x = m x :=
  if_neg outside

/-- What is read depends on the eight bytes alone. -/
theorem read_congr {m m' : Memory} {a : Word} (same : ∀ x, Span a 8 x → m x = m' x) :
    read m a = read m' a := by
  have byte (i : Word) (small : i.toNat < 8) : m (a + i) = m' (a + i) := by
    apply same
    unfold Span
    bv_omega
  have first : m a = m' a := by
    apply same
    simp [Span]
  unfold read
  rw [byte 7 (by decide), byte 6 (by decide), byte 5 (by decide), byte 4 (by decide),
    byte 3 (by decide), byte 2 (by decide), byte 1 (by decide), first]

theorem read_write_apart {m : Memory} {a b v : Word} (apart : Apart a 8 b 8) :
    read (write m b v) a = read m a :=
  read_congr fun x span => write_outside (apart x span)

/-- A byte just written. -/
theorem write_byte (m : Memory) (a v : Word) {i : Word} (small : i.toNat < 8) :
    write m a v (a + i) = v.extractLsb' (8 * i.toNat) 8 := by
  have offset : a + i - a = i := by bv_omega
  have span : Span a 8 (a + i) := by
    unfold Span
    rwa [offset]
  unfold write
  rw [if_pos span, offset]

theorem read_write_same (m : Memory) (a v : Word) : read (write m a v) a = v := by
  have first : write m a v a = v.extractLsb' 0 8 := by
    simpa using write_byte m a v (i := 0) (by decide)
  have byte (i : Word) (small : i.toNat < 8) := write_byte m a v small
  unfold read
  rw [byte 7 (by decide), byte 6 (by decide), byte 5 (by decide), byte 4 (by decide),
    byte 3 (by decide), byte 2 (by decide), byte 1 (by decide), first]
  -- neighbouring bytes are put together from the highest down
  have join (start len : Nat) : v.extractLsb' (start + 8) len ++ v.extractLsb' start 8 =
      v.extractLsb' start (len + 8) :=
    BitVec.extractLsb'_append_extractLsb'_eq_extractLsb' rfl
  have whole : v.extractLsb' 0 64 = v := BitVec.extractLsb'_eq_self
  calc
    _ = v.extractLsb' 48 16 ++ v.extractLsb' 40 8 ++ v.extractLsb' 32 8 ++ v.extractLsb' 24 8 ++
        v.extractLsb' 16 8 ++ v.extractLsb' 8 8 ++ v.extractLsb' 0 8 := by
      rw [← join 48 8]; rfl
    _ = v.extractLsb' 40 24 ++ v.extractLsb' 32 8 ++ v.extractLsb' 24 8 ++
        v.extractLsb' 16 8 ++ v.extractLsb' 8 8 ++ v.extractLsb' 0 8 := by
      rw [← join 40 16]
    _ = v.extractLsb' 32 32 ++ v.extractLsb' 24 8 ++
        v.extractLsb' 16 8 ++ v.extractLsb' 8 8 ++ v.extractLsb' 0 8 := by
      rw [← join 32 24]
    _ = v.extractLsb' 24 40 ++ v.extractLsb' 16 8 ++ v.extractLsb' 8 8 ++ v.extractLsb' 0 8 := by
      rw [← join 24 32]
    _ = v.extractLsb' 16 48 ++ v.extractLsb' 8 8 ++ v.extractLsb' 0 8 := by
      rw [← join 16 40]
    _ = v.extractLsb' 8 56 ++ v.extractLsb' 0 8 := by
      rw [← join 8 48]
    _ = v := (join 0 56).trans whole

/-- The bytes of a word that is read are those in memory. -/
theorem read_byte (m : Memory) (a : Word) {i : Word} (small : i.toNat < 8) :
    (read m a).extractLsb' (8 * i.toNat) 8 = m (a + i) := by
  have places : i = 0 ∨ i = 1 ∨ i = 2 ∨ i = 3 ∨ i = 4 ∨ i = 5 ∨ i = 6 ∨ i = 7 := by bv_omega
  have first : m (a + 0) = m a := congrArg m (BitVec.add_zero a)
  have last {n : Nat} (x : BitVec n) (y : BitVec 8) : (x ++ y).extractLsb' 0 8 = y :=
    BitVec.extractLsb'_append_eq_right
  have next {n : Nat} (x : BitVec n) (y : BitVec 8) (start : Nat) :
      (x ++ y).extractLsb' (start + 8) 8 = x.extractLsb' start 8 := by
    rw [BitVec.extractLsb'_append_eq_of_le (by omega), Nat.add_sub_cancel]
  unfold read
  -- the bytes above the lowest one are those of the word shifted down
  rcases places with rfl | rfl | rfl | rfl | rfl | rfl | rfl | rfl
  · rw [first]
    exact last ..
  · exact (next _ _ 0).trans (last ..)
  · exact (next _ _ 8).trans ((next _ _ 0).trans (last ..))
  · exact (next _ _ 16).trans ((next _ _ 8).trans ((next _ _ 0).trans (last ..)))
  · refine (next _ _ 24).trans ((next _ _ 16).trans ?_)
    exact (next _ _ 8).trans ((next _ _ 0).trans (last ..))
  · refine (next _ _ 32).trans ((next _ _ 24).trans ((next _ _ 16).trans ?_))
    exact (next _ _ 8).trans ((next _ _ 0).trans (last ..))
  · refine (next _ _ 40).trans ((next _ _ 32).trans ((next _ _ 24).trans ?_))
    exact (next _ _ 16).trans ((next _ _ 8).trans ((next _ _ 0).trans (last ..)))
  · refine (next _ _ 48).trans ((next _ _ 40).trans ((next _ _ 32).trans ?_))
    refine (next _ _ 24).trans ((next _ _ 16).trans ?_)
    exact (next _ _ 8).trans ((next _ _ 0).trans BitVec.extractLsb'_eq_self)

/-- Where the word of another memory is written, the bytes are those of that memory. -/
theorem write_read_byte {m m' : Memory} {a x : Word} (span : Span a 8 x) :
    write m a (read m' a) x = m' x := by
  have offset : a + (x - a) = x := by bv_omega
  rw [write, if_pos span, read_byte m' a span, offset]

/-! ### Slots of a block -/

/-- Each pair of an offset and a value is written in turn into the block at `base`. -/
def writeSlots (m : Memory) (base : Word) : List (Word × Word) → Memory
  | [] => m
  | (offset, v) :: rest => writeSlots (write m (base + offset) v) base rest

/-- The block at `base` reads as the pairs of offset and value say. -/
def Holds (m : Memory) (base : Word) (slots : List (Word × Word)) : Prop :=
  ∀ slot ∈ slots, read m (base + slot.1) = slot.2

/-- No two slots overlap. -/
def Spaced (offsets : List Word) : Prop :=
  offsets.Pairwise fun x y => 8 ≤ (x - y).toNat ∧ 8 ≤ (y - x).toNat

instance (offsets : List Word) : Decidable (Spaced offsets) :=
  inferInstanceAs (Decidable (List.Pairwise ..))

/-- Every slot lies in the first `n` bytes. -/
def Within (n : Nat) (offsets : List Word) : Prop :=
  ∀ offset ∈ offsets, offset.toNat + 8 ≤ n

instance (n : Nat) (offsets : List Word) : Decidable (Within n offsets) :=
  List.decidableBAll (fun offset : Word => offset.toNat + 8 ≤ n) offsets

theorem writeSlots_append (m : Memory) (base : Word) (front back : List (Word × Word)) :
    writeSlots m base (front ++ back) = writeSlots (writeSlots m base front) base back := by
  induction front generalizing m with
  | nil => rfl
  | cons slot front ih => exact ih _

theorem writeSlots_outside {base x : Word} {n : Nat} {slots : List (Word × Word)}
    (within : Within n (slots.map Prod.fst)) (outside : ¬ Span base n x) (m : Memory) :
    writeSlots m base slots x = m x := by
  induction slots generalizing m with
  | nil => rfl
  | cons slot rest ih =>
    have fits := within slot.1 (by simp)
    have rest_within : Within n (rest.map Prod.fst) := fun offset listed =>
      within offset (List.mem_cons_of_mem _ listed)
    rw [writeSlots, ih rest_within]
    exact write_outside fun span => outside (span.inside fits)

/-- A read apart from the block does not see what is written into it. -/
theorem read_writeSlots_apart {base a : Word} {n : Nat} {slots : List (Word × Word)}
    (within : Within n (slots.map Prod.fst)) (apart : Apart a 8 base n) (m : Memory) :
    read (writeSlots m base slots) a = read m a :=
  read_congr fun x span => writeSlots_outside within (apart x span) m

theorem read_writeSlots_spaced {base offset : Word} {slots : List (Word × Word)}
    (spaced : ∀ x ∈ slots.map Prod.fst, 8 ≤ (offset - x).toNat ∧ 8 ≤ (x - offset).toNat)
    (m : Memory) : read (writeSlots m base slots) (base + offset) = read m (base + offset) := by
  induction slots generalizing m with
  | nil => rfl
  | cons slot rest ih =>
    obtain ⟨below, above⟩ := spaced slot.1 (by simp)
    rw [writeSlots, ih fun x listed => spaced x (List.mem_cons_of_mem _ listed)]
    exact read_write_apart (apart_offsets base below above)

/-- Slots that do not overlap all read as they were written. -/
theorem holds_writeSlots {slots : List (Word × Word)} (spaced : Spaced (slots.map Prod.fst))
    (m : Memory) (base : Word) : Holds (writeSlots m base slots) base slots := by
  induction slots generalizing m with
  | nil =>
    intro slot listed
    cases listed
  | cons head rest ih =>
    obtain ⟨head_spaced, rest_spaced⟩ := List.pairwise_cons.mp spaced
    intro slot listed
    rcases List.mem_cons.mp listed with rfl | later
    · -- the slots written after this one leave it alone
      rw [writeSlots, read_writeSlots_spaced head_spaced]
      exact read_write_same ..
    · exact ih rest_spaced _ slot later

theorem Holds.congr {m m' : Memory} {base : Word} {n : Nat} {slots : List (Word × Word)}
    (holds : Holds m base slots) (within : Within n (slots.map Prod.fst))
    (same : ∀ x, Span base n x → m' x = m x) : Holds m' base slots := by
  intro slot listed
  have fits := within slot.1 (List.mem_map_of_mem listed)
  rw [← holds slot listed]
  exact read_congr fun x span => same x (span.inside fits)

end ByteMemory
