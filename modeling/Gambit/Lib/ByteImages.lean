import Mathlib.Tactic

/-!
# Byte images

A file or a mapping as a list of bytes, with loads and stores at offsets.  A
load after a store sees the store or, away from it, the image before; words are
stored least significant byte first.
-/

set_option autoImplicit false

namespace ByteImages

/-- The low `width` bytes of a number, least significant first. -/
def littleEndian : Nat → Nat → List UInt8
  | 0, _ => []
  | width + 1, n => UInt8.ofNat (n % 256) :: littleEndian width (n / 256)

def ofLittleEndian : List UInt8 → Nat
  | [] => 0
  | byte :: rest => byte.toNat + 256 * ofLittleEndian rest

def load (image : List UInt8) (offset length : Nat) : List UInt8 :=
  (image.drop offset).take length

def store (image : List UInt8) (offset : Nat) (bytes : List UInt8) : List UInt8 :=
  image.take offset ++ bytes ++ image.drop (offset + bytes.length)

/-! ## Words -/

@[simp] theorem length_littleEndian (width n : Nat) : (littleEndian width n).length = width := by
  induction width generalizing n with
  | zero => rfl
  | succ width ih => simp [littleEndian, ih]

theorem ofLittleEndian_littleEndian {width n : Nat} (fits : n < 256 ^ width) :
    ofLittleEndian (littleEndian width n) = n := by
  induction width generalizing n with
  | zero =>
      have zero : n = 0 := by simpa using fits
      subst zero
      rfl
  | succ width ih =>
      have rest : n / 256 < 256 ^ width := by
        rw [pow_succ] at fits
        omega
      simp only [littleEndian, ofLittleEndian, ih rest, UInt8.toNat_ofNat']
      omega

def word64 (bytes : List UInt8) : UInt64 := UInt64.ofNat (ofLittleEndian bytes)

def word32 (bytes : List UInt8) : UInt32 := UInt32.ofNat (ofLittleEndian bytes)

def bytes64 (word : UInt64) : List UInt8 := littleEndian 8 word.toNat

def bytes32 (word : UInt32) : List UInt8 := littleEndian 4 word.toNat

@[simp] theorem length_bytes64 (word : UInt64) : (bytes64 word).length = 8 :=
  length_littleEndian 8 word.toNat

@[simp] theorem length_bytes32 (word : UInt32) : (bytes32 word).length = 4 :=
  length_littleEndian 4 word.toNat

@[simp] theorem word64_bytes64 (word : UInt64) : word64 (bytes64 word) = word := by
  rw [word64, bytes64, ofLittleEndian_littleEndian word.toNat_lt, UInt64.ofNat_toNat]

@[simp] theorem word32_bytes32 (word : UInt32) : word32 (bytes32 word) = word := by
  rw [word32, bytes32, ofLittleEndian_littleEndian word.toNat_lt, UInt32.ofNat_toNat]

/-! ## Loads and stores -/

variable {image bytes : List UInt8} {offset length : Nat}

theorem length_load (inside : offset + length ≤ image.length) :
    (load image offset length).length = length := by
  simp only [load, List.length_take, List.length_drop]
  omega

@[simp] theorem length_store (inside : offset + bytes.length ≤ image.length) :
    (store image offset bytes).length = image.length := by
  simp only [store, List.length_append, List.length_take, List.length_drop]
  omega

theorem getElem?_load {i : Nat} :
    (load image offset length)[i]? = if i < length then image[offset + i]? else none := by
  by_cases inside : i < length
  · rw [load, List.getElem?_take_of_lt inside, List.getElem?_drop, if_pos inside]
  · rw [load, List.getElem?_take_eq_none (by omega), if_neg inside]

theorem getElem?_store_within {i : Nat} (inside : offset + bytes.length ≤ image.length)
    (above : offset ≤ i) (below : i < offset + bytes.length) :
    (store image offset bytes)[i]? = bytes[i - offset]? := by
  have low : (image.take offset).length = offset := by
    rw [List.length_take]
    omega
  rw [store, List.append_assoc, List.getElem?_append_right (by omega), low,
    List.getElem?_append_left (by omega)]

theorem getElem?_store_away {i : Nat} (inside : offset + bytes.length ≤ image.length)
    (away : i < offset ∨ offset + bytes.length ≤ i) :
    (store image offset bytes)[i]? = image[i]? := by
  have low : (image.take offset).length = offset := by
    rw [List.length_take]
    omega
  rcases away with before | after
  · rw [store, List.append_assoc, List.getElem?_append_left (by omega),
      List.getElem?_take_of_lt before]
  · rw [store, List.getElem?_append_right (by rw [List.length_append]; omega),
      List.length_append, low, List.getElem?_drop]
    congr 1
    omega

theorem load_store_same (inside : offset + bytes.length ≤ image.length) :
    load (store image offset bytes) offset bytes.length = bytes := by
  apply List.ext_getElem?
  intro i
  rw [getElem?_load]
  by_cases within : i < bytes.length
  · rw [if_pos within, getElem?_store_within inside (by omega) (by omega),
      Nat.add_sub_cancel_left]
  · rw [if_neg within, List.getElem?_eq_none (by omega)]

theorem load_store_away {start count : Nat} (inside : offset + bytes.length ≤ image.length)
    (away : start + count ≤ offset ∨ offset + bytes.length ≤ start) :
    load (store image offset bytes) start count = load image start count := by
  apply List.ext_getElem?
  intro i
  rw [getElem?_load, getElem?_load]
  by_cases within : i < count
  · rw [if_pos within, if_pos within, getElem?_store_away inside (by omega)]
  · rw [if_neg within, if_neg within]

theorem load_load {start count : Nat} (inside : start + count ≤ length) :
    load (load image offset length) start count = load image (offset + start) count := by
  apply List.ext_getElem?
  intro i
  rw [getElem?_load, getElem?_load, getElem?_load]
  by_cases within : i < count
  · rw [if_pos within, if_pos within, if_pos (by omega), Nat.add_assoc]
  · rw [if_neg within, if_neg within]

/-! ## Vectors of words -/

/-- The image of a vector of 64-bit words. -/
def words (values : List UInt64) : List UInt8 := values.flatMap bytes64

/-- The words of an image. -/
def readWords (image : List UInt8) (offset : Nat) : Nat → List UInt64
  | 0 => []
  | count + 1 => word64 (load image offset 8) :: readWords image (offset + 8) count

@[simp] theorem length_words (values : List UInt64) : (words values).length = 8 * values.length := by
  induction values with
  | nil => rfl
  | cons value values ih =>
      simp only [words, List.flatMap_cons, List.length_append, length_bytes64, List.length_cons] at ih ⊢
      omega

theorem readWords_congr {other : List UInt8} {start count : Nat} (there : Nat)
    (same : ∀ i, i < 8 * count → image[start + i]? = other[there + i]?) :
    readWords image start count = readWords other there count := by
  induction count generalizing start there with
  | zero => rfl
  | succ count ih =>
      have first : load image start 8 = load other there 8 := by
        apply List.ext_getElem?
        intro i
        rw [getElem?_load, getElem?_load]
        by_cases within : i < 8
        · rw [if_pos within, if_pos within, same i (by omega)]
        · rw [if_neg within, if_neg within]
      have rest := @ih (start + 8) (there + 8) fun i small => by
        have moved := same (8 + i) (by omega)
        rwa [← Nat.add_assoc, ← Nat.add_assoc] at moved
      rw [readWords, readWords, first, rest]

/-- A part of a stored vector reads back. -/
theorem readWords_words (values : List UInt64) {start count : Nat}
    (inside : start + count ≤ values.length) :
    readWords (words values) (8 * start) count = (values.drop start).take count := by
  induction values generalizing start count with
  | nil =>
      have none : count = 0 := by
        rw [List.length_nil] at inside
        omega
      subst none
      rfl
  | cons value values ih =>
      have shift (place : Nat) (n : Nat) :
          readWords (words (value :: values)) (8 * (place + 1)) n =
            readWords (words values) (8 * place) n := by
        apply readWords_congr
        intro i _
        have image : words (value :: values) = bytes64 value ++ words values := rfl
        rw [image, List.getElem?_append_right (by rw [length_bytes64]; omega), length_bytes64]
        congr 1
        omega
      rw [List.length_cons] at inside
      cases start with
      | zero =>
          cases count with
          | zero => rfl
          | succ count =>
              have head : load (words (value :: values)) (8 * 0) 8 = bytes64 value := by
                change ((bytes64 value ++ words values).drop 0).take 8 = bytes64 value
                rw [List.drop_zero]
                exact List.take_left' (length_bytes64 value)
              have tail := @ih 0 count (by omega)
              rw [readWords, head, word64_bytes64, shift 0 count, tail]
              rfl
      | succ start => rw [shift start count, ih (by omega), List.drop_succ_cons]

end ByteImages
