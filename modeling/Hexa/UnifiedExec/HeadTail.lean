/-
The capped output of a process: a buffer that keeps the first bytes and the
newest ones, and counts what it gave up in between.
-/
import Hexa.Lib.RustStr

namespace Hexa.UnifiedExec

open List

/-- `usize::MAX` on a 64-bit target. -/
def usizeMax : Nat := 2 ^ 64 - 1

def saturatingAdd (first second : Nat) : Nat := min (first + second) usizeMax

structure HeadTailBuffer (maxBytes : Nat) where
  head : Bytes := []
  tail : Bytes := []
  omittedBytes : Nat := 0
  deriving DecidableEq

namespace HeadTailBuffer

def headBudget (maxBytes : Nat) : Nat := maxBytes / 2

def tailBudget (maxBytes : Nat) : Nat := maxBytes - headBudget maxBytes

variable {maxBytes : Nat} (buffer : HeadTailBuffer maxBytes) (chunk : Bytes)

/-- The filled head, and the bytes that did not fit. -/
def fillHead : HeadTailBuffer maxBytes × Bytes :=
  let remaining := headBudget maxBytes - buffer.head.length
  ({ buffer with head := buffer.head ++ chunk.take remaining }, chunk.drop remaining)

def pushTail : HeadTailBuffer maxBytes :=
  let remaining := tailBudget maxBytes - buffer.tail.length
  let excess := chunk.length - remaining
  { buffer with
    -- old bytes go first, then the excess of the chunk itself
    tail := if excess < buffer.tail.length then
        buffer.tail.drop excess ++ chunk
      else chunk.drop (excess - buffer.tail.length)
    omittedBytes := saturatingAdd buffer.omittedBytes excess }

def pushChunk : HeadTailBuffer maxBytes :=
  let (buffer, rest) := buffer.fillHead chunk
  buffer.pushTail rest

/-- An empty head takes over the one of a later buffer. -/
def mergeHead (head : Bytes) : HeadTailBuffer maxBytes × Bytes :=
  if buffer.head = [] then ({ buffer with head := head }, [])
  else buffer.fillHead head

/-- The deque of the later buffer lies in two slices, of which the first has
`wrap` bytes. -/
def pushBuffer (buffer later : HeadTailBuffer maxBytes) (wrap : Nat) : HeadTailBuffer maxBytes :=
  let buffer := { buffer with
    omittedBytes := saturatingAdd buffer.omittedBytes later.omittedBytes }
  let (buffer, overflow) := buffer.mergeHead later.head
  if later.tail.length = tailBudget maxBytes then
    { buffer with
      tail := later.tail
      omittedBytes := saturatingAdd
        (saturatingAdd buffer.omittedBytes buffer.tail.length)
        overflow.length }
  else
    let buffer := buffer.pushTail overflow
    if buffer.tail = [] then { buffer with tail := later.tail }
    else (buffer.pushTail (later.tail.take wrap)).pushTail (later.tail.drop wrap)

def pushAll (maxBytes : Nat) (chunks : List Bytes) : HeadTailBuffer maxBytes :=
  chunks.foldl pushChunk {}

/-- The last bytes, as many as the budget allows. -/
def lastBytes (budget : Nat) (bytes : Bytes) : Bytes := bytes.drop (bytes.length - budget)

/-- A buffer with this head that has seen these bytes behind it.  The count of
the bytes in between saturates. -/
def holding (head rest : Bytes) : HeadTailBuffer maxBytes where
  head := head
  tail := lastBytes (tailBudget maxBytes) rest
  omittedBytes := min (rest.length - tailBudget maxBytes) usizeMax

/-- What a buffer is to keep of an output. -/
def summary (maxBytes : Nat) (output : Bytes) : HeadTailBuffer maxBytes :=
  holding (output.take (headBudget maxBytes)) (output.drop (headBudget maxBytes))

theorem pushTail_holding (head rest chunk : Bytes) :
    pushTail (holding head rest : HeadTailBuffer maxBytes) chunk =
      holding head (rest ++ chunk) := by
  simp only [pushTail, holding, lastBytes, saturatingAdd, mk.injEq,
    length_drop, length_append, drop_append, true_and]
  refine ⟨?_, by omega⟩
  split_ifs with hexcess
  · rw [drop_drop]
    congr 1
    · congr 1
      omega
    · rw [show rest.length + chunk.length - tailBudget maxBytes -
        rest.length = 0 by omega, drop_zero]
  · have hrest : rest.drop (rest.length + chunk.length - tailBudget maxBytes) = [] :=
      drop_eq_nil_of_le (by omega)
    rw [hrest]
    congr 1
    omega

/-- The head takes what is missing, and the rest goes on. -/
theorem fillHead_take (omitted : Nat) (tail output chunk : Bytes) :
    fillHead (⟨output.take (headBudget maxBytes), tail, omitted⟩ :
        HeadTailBuffer maxBytes) chunk =
      (⟨(output ++ chunk).take (headBudget maxBytes), tail, omitted⟩,
        chunk.drop (headBudget maxBytes - output.length)) := by
  have hremaining : headBudget maxBytes -
      (output.take (headBudget maxBytes)).length = headBudget maxBytes - output.length := by
    rw [length_take]
    omega
  rw [fillHead, hremaining, take_append]

theorem pushChunk_summary (output chunk : Bytes) :
    (summary maxBytes output).pushChunk chunk = summary maxBytes (output ++ chunk) := by
  rw [pushChunk, summary, holding, fillHead_take]
  exact (pushTail_holding _ _ _).trans (by rw [summary, drop_append])

theorem pushAll_summary (chunks : List Bytes) :
    pushAll maxBytes chunks = summary maxBytes chunks.flatten := by
  have hfold : ∀ output, chunks.foldl pushChunk (summary maxBytes output) =
      summary maxBytes (output ++ chunks.flatten) := by
    induction chunks with
    | nil => simp
    | cons chunk chunks ih =>
      intro output
      rw [foldl_cons, pushChunk_summary, ih, flatten_cons, append_assoc]
  have hstart : summary maxBytes [] = {} := by simp [summary, holding, lastBytes]
  rw [pushAll, ← hstart, hfold, nil_append]

/-- What follows the head of two outputs: the rest of the first, what the head
did not take from the second, and the rest of the second. -/
theorem drop_append_heads (budget : Nat) (first second : Bytes) :
    (first ++ second).drop budget = first.drop budget ++
        (second.take budget).drop (budget - first.length) ++ second.drop budget := by
  rw [drop_append, append_assoc]
  congr 1
  conv_lhs => rw [← take_append_drop budget second]
  rw [drop_append]
  congr 1
  rw [length_take, drop_drop]
  rcases Nat.le_total budget second.length with hle | hle
  · congr 1
    omega
  · rw [drop_eq_nil_of_le (by omega), drop_eq_nil_of_le hle]

theorem mergeHead_take (omitted : Nat) (tail first second : Bytes) :
    mergeHead (⟨first.take (headBudget maxBytes), tail, omitted⟩ :
        HeadTailBuffer maxBytes) (second.take (headBudget maxBytes)) =
      (⟨(first ++ second).take (headBudget maxBytes), tail, omitted⟩,
        (second.take (headBudget maxBytes)).drop (headBudget maxBytes - first.length)) := by
  rw [mergeHead, fillHead_take]
  split_ifs with hempty
  · rcases take_eq_nil_iff.mp hempty with hzero | rfl
    · simp [hzero]
    · simp
  · simp [take_append, take_take]

theorem pushBuffer_summary (first second : Bytes) (wrap : Nat) :
    (summary maxBytes first).pushBuffer (summary maxBytes second) wrap =
      summary maxBytes (first ++ second) := by
  have hrest := drop_append_heads (headBudget maxBytes) first second
  simp only [summary, hrest, pushBuffer, holding, mergeHead_take]
  generalize first.drop (headBudget maxBytes) = firstRest
  generalize (second.take (headBudget maxBytes)).drop
    (headBudget maxBytes - first.length) = overflow
  generalize second.drop (headBudget maxBytes) = secondRest
  rcases Nat.lt_or_ge secondRest.length (tailBudget maxBytes) with hlt | hge
  · -- a tail that is not full is all there is, and nothing was given up
    have hnothing := Nat.sub_eq_zero_of_le hlt.le
    have hall : lastBytes (tailBudget maxBytes) secondRest = secondRest := by
      rw [lastBytes, hnothing, drop_zero]
    have hheld : (⟨(first ++ second).take (headBudget maxBytes),
        lastBytes (tailBudget maxBytes) firstRest,
        saturatingAdd (min (firstRest.length - tailBudget maxBytes) usizeMax)
          (min 0 usizeMax)⟩ : HeadTailBuffer maxBytes) =
          holding ((first ++ second).take (headBudget maxBytes)) firstRest := by
      simp [holding, saturatingAdd]
    rw [hall, if_neg hlt.ne, hnothing, hheld, pushTail_holding]
    split_ifs with hempty
    · have hnone : firstRest ++ overflow = [] := by
        have hdropped := drop_eq_nil_iff.mp hempty
        exact length_eq_zero_iff.mp (by omega)
      simp [holding, hnone, hall, hnothing]
    · rw [pushTail_holding, pushTail_holding, append_assoc, take_append_drop]
      rfl
  · have hlength : (lastBytes (tailBudget maxBytes) secondRest).length = tailBudget maxBytes := by
      rw [lastBytes, length_drop]
      omega
    have htail : lastBytes (tailBudget maxBytes)
        (firstRest ++ overflow ++ secondRest) = lastBytes (tailBudget maxBytes) secondRest := by
      rw [lastBytes, length_append, Nat.add_sub_assoc hge, drop_length_add_append, lastBytes]
    rw [if_pos hlength, htail]
    simp only [mk.injEq, true_and, saturatingAdd, lastBytes, length_append, length_drop]
    omega

/-- A buffer keeps the head and the newest bytes of its output however it is
cut into chunks, and merging buffers is the same as one buffer of both
outputs. -/
theorem head_tail_kept (maxBytes : Nat) (chunks later : List Bytes) (wrap : Nat) :
    pushAll maxBytes chunks = summary maxBytes chunks.flatten ∧
      (pushAll maxBytes chunks).pushBuffer (pushAll maxBytes later) wrap =
        pushAll maxBytes (chunks ++ later) := by
  refine ⟨pushAll_summary chunks, ?_⟩
  rw [pushAll_summary, pushAll_summary, pushAll_summary, pushBuffer_summary, flatten_append]

end HeadTailBuffer

end Hexa.UnifiedExec
