import Iprp.Library.Bytes

/-!
# Strings in character buffers

A C string lies in a buffer up to the first NUL. `snprintf buf off size out` is the effect
of printing `out` at an offset with a limit: at most `size - 1` characters and a NUL. When
pieces of one width are printed one after the other, each NUL is overwritten by the next
piece, and the buffer holds their concatenation (`cString_foldl_snprintf`).

`hex02` is the conversion `%02x` of an `unsigned int`.
-/

namespace CString

open Bytes

def nul : Char := Char.ofNat 0

/-- The string that begins at the start of a buffer. -/
def cString (buf : List Char) : List Char := buf.takeWhile fun c => c != nul

/-- Print `out` at the offset `off`, as much of it as fits into `size - 1` characters. -/
def snprintf (buf : List Char) (off size : ℕ) (out : List Char) : List Char :=
  write buf off (out.take (size - 1) ++ [nul])

/-- `%02x`. -/
def hex02 (n : ℕ) : List Char := List.leftpad 2 '0' (Nat.toDigits 16 n)

theorem two_le_length_hex02 (n : ℕ) : 2 ≤ (hex02 n).length := by
  simp only [hex02, List.leftpad, List.length_append, List.length_replicate]
  omega

theorem cString_eq_take {buf : List Char} {m : ℕ} (hnul : buf[m]? = some nul)
    (htake : nul ∉ buf.take m) : cString buf = buf.take m := by
  have hm : m < buf.length := (List.getElem?_eq_some_iff.1 hnul).1
  have hget : buf[m] = nul := (List.getElem?_eq_some_iff.1 hnul).2
  have hsplit : buf = buf.take m ++ nul :: buf.drop (m + 1) := by
    rw [← hget, ← List.drop_eq_getElem_cons hm, List.take_append_drop]
  have hkeep : ∀ c ∈ buf.take m, (c != nul) = true := by
    intro c hc
    rw [bne_iff_ne]
    rintro rfl
    exact htake hc
  rw [cString]
  conv_lhs => rw [hsplit]
  rw [List.takeWhile_append_of_pos hkeep, List.takeWhile_cons_of_neg (by simp),
    List.append_nil]

theorem snprintf_width (buf : List Char) (off : ℕ) {out : List Char} {w : ℕ}
    (hout : w ≤ out.length)
    (hbuf : off + w < buf.length) :
    (snprintf buf off (w + 1) out).length = buf.length ∧
      (snprintf buf off (w + 1) out).take (off + w) = buf.take off ++ out.take w ∧
      (snprintf buf off (w + 1) out)[off + w]? = some nul := by
  have hpiece : (out.take w).length = w := by
    rw [List.length_take, Nat.min_eq_left hout]
  have hoff : (buf.take off).length = off := by
    rw [List.length_take]
    omega
  have hlen : (buf.take off ++ out.take w).length = off + w := by
    rw [List.length_append, hoff, hpiece]
  have hwrite : snprintf buf off (w + 1) out =
      (buf.take off ++ out.take w) ++ nul :: buf.drop (off + (w + 1)) := by
    rw [snprintf, write, Nat.add_sub_cancel, List.length_append, hpiece]
    simp [List.append_assoc]
  rw [hwrite]
  refine ⟨?_, ?_, ?_⟩
  · rw [List.length_append, hlen, List.length_cons, List.length_drop]
    omega
  · exact List.take_left' hlen
  · rw [List.getElem?_append_right (le_of_eq hlen), hlen, Nat.sub_self]
    rfl

theorem foldl_snprintf {w : ℕ} {f : ℕ → List Char} (hf : ∀ i, w ≤ (f i).length) (n : ℕ)
    {buf : List Char} (hbuf : w * (n + 1) < buf.length) :
    let printed := (List.range (n + 1)).foldl
      (fun buf i => snprintf buf (w * i) (w + 1) (f i)) buf
    printed.length = buf.length ∧
      printed.take (w * (n + 1)) = (List.range (n + 1)).flatMap (fun i => (f i).take w) ∧
      printed[w * (n + 1)]? = some nul := by
  induction n with
  | zero =>
      have hone := snprintf_width buf (w * 0) (hf 0) (by simpa using hbuf)
      simpa using hone
  | succ n ih =>
      rw [Nat.mul_succ] at hbuf
      obtain ⟨hlen, htake, _⟩ := ih (by omega)
      rw [List.range_succ, List.foldl_append, List.foldl_cons, List.foldl_nil,
        List.flatMap_append, List.flatMap_singleton, ← htake, Nat.mul_succ]
      rw [← hlen] at hbuf ⊢
      exact snprintf_width _ _ (hf (n + 1)) hbuf

/-- The string left by pieces of width `w` without a NUL. -/
theorem cString_foldl_snprintf {w : ℕ} {f : ℕ → List Char}
    (hf : ∀ i, w ≤ (f i).length) (hnul : ∀ i, nul ∉ (f i).take w) (n : ℕ)
    (buf : List Char) (hbuf : w * (n + 1) < buf.length) :
    cString ((List.range (n + 1)).foldl
        (fun buf i => snprintf buf (w * i) (w + 1) (f i)) buf) =
      (List.range (n + 1)).flatMap fun i => (f i).take w := by
  obtain ⟨_, htake, hend⟩ := foldl_snprintf hf n hbuf
  rw [cString_eq_take hend, htake]
  rw [htake]
  intro hmem
  obtain ⟨i, _, hi⟩ := List.mem_flatMap.1 hmem
  exact hnul i hi

end CString
