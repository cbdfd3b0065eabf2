import Mathlib.Data.List.Basic
import Mathlib.Data.Nat.Basic

/-!
# Reading at a running offset

A parser that slices a buffer at an offset it advances is a state monad over that offset. Such a
reader is *of fixed width* when it fails exactly if fewer than that many symbols are left, and
otherwise returns a function of those symbols and moves past them. Fixed-width readers compose: the
widths add up, and the failures are those of the longer read. So a whole parser is understood from
its atomic reads, both when it succeeds and when it does not.
-/

namespace Cursor

variable {β ε α γ : Type}

/-- The `width` symbols of a buffer from an offset on, fewer where the buffer ends. -/
def window (buffer : List β) (offset width : ℕ) : List β := (buffer.drop offset).take width

/-- The reader takes exactly `width` symbols, returns `value` of them, and fails with `fault` when
the buffer ends before. -/
def FixedWidth (fault : ε) (buffer : List β) (width : ℕ) (reader : StateT ℕ (Except ε) α)
    (value : List β → α) : Prop :=
  ∀ offset ≤ buffer.length, reader.run offset =
    if offset + width ≤ buffer.length then
      .ok (value (window buffer offset width), offset + width)
    else .error fault

def repeatRead (reader : StateT ℕ (Except ε) α) : ℕ → StateT ℕ (Except ε) (List α)
  | 0 => pure []
  | count + 1 => do
      let value ← reader
      let rest ← repeatRead reader count
      return value :: rest

/-- Cut a word into `count` pieces of `width` symbols and decode each. -/
def pieces (width : ℕ) (value : List β → α) : ℕ → List β → List α
  | 0, _ => []
  | count + 1, word => value (word.take width) :: pieces width value count (word.drop width)

@[simp]
theorem length_window {buffer : List β} {offset width : ℕ}
    (h : offset + width ≤ buffer.length) : (window buffer offset width).length = width := by
  rw [window, List.length_take, List.length_drop]
  omega

theorem window_take (buffer : List β) (offset left right : ℕ) :
    (window buffer offset (left + right)).take left = window buffer offset left := by
  rw [window, window, List.take_take, Nat.min_eq_left (Nat.le_add_right left right)]

theorem window_drop (buffer : List β) (offset left right : ℕ) :
    (window buffer offset (left + right)).drop left = window buffer (offset + left) right := by
  rw [window, window, List.drop_take, List.drop_drop, Nat.add_sub_cancel_left]

theorem window_window (buffer : List β) {offset width inner length : ℕ}
    (h : inner + length ≤ width) :
    window (window buffer offset width) inner length = window buffer (offset + inner) length := by
  rw [window, window, window, List.drop_take, List.drop_drop, List.take_take,
    Nat.min_eq_left (by omega)]

/-- A window that ends before position `n` is one of the first `n` symbols. -/
theorem take_window (buffer : List β) {offset width n : ℕ} (h : offset + width ≤ n) :
    window (buffer.take n) offset width = window buffer offset width := by
  rw [window, window, List.drop_take, List.take_take, Nat.min_eq_left (by omega)]

theorem window_eq_drop {buffer : List β} {offset width : ℕ} (h : buffer.length = offset + width) :
    window buffer offset width = buffer.drop offset := by
  rw [window, List.take_of_length_le]
  rw [List.length_drop]
  omega

theorem window_append_left {left : List β} (right : List β) {offset width : ℕ}
    (h : offset + width ≤ left.length) :
    window (left ++ right) offset width = window left offset width := by
  rw [window, window, List.drop_append_of_le_length (by omega), List.take_append_of_le_length]
  rw [List.length_drop]
  omega

theorem window_append_right {left : List β} (right : List β) {offset width : ℕ}
    (h : left.length ≤ offset) :
    window (left ++ right) offset width = window right (offset - left.length) width := by
  rw [window, window, List.drop_append, List.drop_eq_nil_of_le h, List.nil_append]

theorem window_self {buffer : List β} {width : ℕ} (h : buffer.length = width) :
    window buffer 0 width = buffer := by
  rw [window_eq_drop (by omega), List.drop_zero]

theorem window_zero_length (buffer : List β) : window buffer 0 buffer.length = buffer := by
  simp [window]

section FixedWidth

variable {fault : ε} {buffer : List β}

theorem FixedWidth.pure (a : α) :
    FixedWidth fault buffer 0 (Pure.pure a : StateT ℕ (Except ε) α) fun _ => a := by
  intro offset hoffset
  rw [if_pos (by omega)]
  rfl

theorem FixedWidth.bind {left right : ℕ} {reader : StateT ℕ (Except ε) α} {value : List β → α}
    {next : α → StateT ℕ (Except ε) γ} {nextValue : α → List β → γ}
    (hreader : FixedWidth fault buffer left reader value)
    (hnext : ∀ a, FixedWidth fault buffer right (next a) (nextValue a)) :
    FixedWidth fault buffer (left + right) (reader >>= next)
      fun word => nextValue (value (word.take left)) (word.drop left) := by
  intro offset hoffset
  rw [StateT.run_bind, hreader offset hoffset]
  by_cases hleft : offset + left ≤ buffer.length
  · rw [if_pos hleft]
    change (next _).run (offset + left) = _
    rw [hnext _ (offset + left) hleft]
    simp only [window_take, window_drop, Nat.add_assoc]
  · rw [if_neg hleft, if_neg (by omega)]
    rfl

theorem FixedWidth.map {width : ℕ} {reader : StateT ℕ (Except ε) α} {value : List β → α}
    (hreader : FixedWidth fault buffer width reader value) (f : α → γ) :
    FixedWidth fault buffer width (reader >>= fun a => Pure.pure (f a))
      fun word => f (value word) := by
  intro offset hoffset
  rw [StateT.run_bind, hreader offset hoffset]
  split <;> rfl

theorem FixedWidth.congr {width : ℕ} {reader : StateT ℕ (Except ε) α} {value value' : List β → α}
    (hreader : FixedWidth fault buffer width reader value)
    (hvalue : ∀ word, word.length = width → value word = value' word) :
    FixedWidth fault buffer width reader value' := by
  intro offset hoffset
  rw [hreader offset hoffset]
  by_cases h : offset + width ≤ buffer.length
  · rw [if_pos h, if_pos h, hvalue _ (length_window h)]
  · rw [if_neg h, if_neg h]

theorem FixedWidth.repeatRead {width : ℕ} {reader : StateT ℕ (Except ε) α} {value : List β → α}
    (hreader : FixedWidth fault buffer width reader value) (count : ℕ) :
    FixedWidth fault buffer (count * width) (repeatRead reader count)
      (pieces width value count) := by
  induction count with
  | zero =>
      rw [Nat.zero_mul]
      exact FixedWidth.pure []
  | succ count ih =>
      rw [Nat.succ_mul, Nat.add_comm]
      exact hreader.bind fun a => ih.map (List.cons a)

/-- On a buffer that is exactly one word the reader returns the word's value. -/
theorem FixedWidth.run_whole {reader : StateT ℕ (Except ε) α} {value : List β → α} {width : ℕ}
    (hreader : FixedWidth fault buffer width reader value) (hlength : buffer.length = width) :
    reader.run 0 = .ok (value buffer, width) := by
  rw [hreader 0 (Nat.zero_le _), if_pos (by omega), Nat.zero_add, ← hlength,
    window_zero_length]

end FixedWidth

section Pieces

variable (width : ℕ) (value : List β → α)

@[simp]
theorem length_pieces (count : ℕ) (word : List β) :
    (pieces width value count word).length = count := by
  induction count generalizing word with
  | zero => rfl
  | succ count ih => simp [pieces, ih]

theorem getElem?_pieces {count index : ℕ} (word : List β) (hindex : index < count) :
    (pieces width value count word)[index]? = some (value (window word (index * width) width)) := by
  induction count generalizing word index with
  | zero => omega
  | succ count ih =>
      cases index with
      | zero => simp [pieces, window]
      | succ index =>
          calc
            (pieces width value (count + 1) word)[index + 1]?
                = (pieces width value count (word.drop width))[index]? := by
              rw [pieces, List.getElem?_cons_succ]
            _ = some (value (window (word.drop width) (index * width) width)) :=
              ih _ (by omega)
            _ = some (value (window word ((index + 1) * width) width)) := by
              rw [window, window, List.drop_drop, Nat.succ_mul, Nat.add_comm]

theorem exists_eq_of_mem_pieces {count : ℕ} {word : List β} {a : α}
    (h : a ∈ pieces width value count word) : ∃ piece, a = value piece := by
  induction count generalizing word with
  | zero => cases h
  | succ count ih =>
      rcases List.mem_cons.mp h with rfl | h
      · exact ⟨_, rfl⟩
      · exact ih h

theorem pieces_flatten (words : List (List β)) (hwidth : ∀ word ∈ words, word.length = width) :
    pieces width value words.length words.flatten = words.map value := by
  induction words with
  | nil => rfl
  | cons word words ih =>
      have hword : word.length = width := hwidth word List.mem_cons_self
      calc
        pieces width value (word :: words).length (word :: words).flatten
            = value word :: pieces width value words.length words.flatten := by
          rw [List.length_cons, List.flatten_cons, pieces, List.take_left' hword,
            List.drop_left' hword]
        _ = (word :: words).map value := by
          rw [ih fun w hw => hwidth w (List.mem_cons_of_mem word hw), List.map_cons]

end Pieces

end Cursor
