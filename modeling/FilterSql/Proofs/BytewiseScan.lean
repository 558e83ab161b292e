import FilterSql.Proofs.ByteSpans

/-! The rewriting to numbered placeholders by offsets into the bytes of a text: no offset is refused,
and the scan ends. -/
namespace FilterSql.Positional

open Utf8 (slice?)

/-- A part of the rewritten text: text, or the placeholder of a number. -/
inductive Chunk where
  | kept (s : List Char)
  | number (n : Nat)

def Chunk.text : Chunk → List Char
  | .kept s => s
  | .number n => '$' :: Nat.toDigits 10 n

/-- A name behind its colon. -/
def nameChunk (number : String → Option Nat) (name : List Char) : Chunk :=
  match number (String.ofList name) with
  | some n => .number n
  | none => .kept (':' :: name)

/-- The parts of a text without quotes. -/
def nameChunks (number : String → Option Nat) (s : List Char) : List Chunk :=
  match _ : s.dropWhile (· ≠ ':') with
  | [] => [.kept s]
  | colon :: rest =>
    .kept (s.takeWhile (· ≠ ':')) ::
      if rest.head?.any Ident.isStart then
        nameChunk number (rest.takeWhile Ident.isPart) ::
          nameChunks number (rest.dropWhile Ident.isPart)
      else .kept [colon] :: nameChunks number rest
  termination_by s.length
  decreasing_by
    all_goals
      have := (List.dropWhile_sublist (l := s) (· ≠ ':')).length_le
      have := (List.dropWhile_sublist (l := rest) Ident.isPart).length_le
      simp_all only [List.length_cons]
      omega

/-- The offset of the first quote. -/
def firstQuote? (s : String) : Option Nat :=
  if s.toList.any isQuote then
    some (String.ofList (s.toList.takeWhile (!isQuote ·))).utf8ByteSize
  else none

/-- A span in the quotes of PostgreSQL: a name in backticks is cut out of them and quoted again. -/
def requoteBytes? (quote : UInt8) (span : String) : Option (List Char) :=
  if quote = quoteByte '\x60' then
    (slice? span 1 (span.utf8ByteSize - 1)).map fun name =>
      Quoted.enclose '\x22' (Quoted.undouble '\x60' name.toList)
  else some span.toList

/-- What one round of the scan leaves to do. -/
inductive Round where
  | last (chunks : List Chunk)
  | next (chunks : List Chunk) (rest : String)

/-- One round of the scan, up to the end of the first span. It has no result if an offset is
refused. -/
def round? (number : String → Option Nat) (rest : String) : Option Round :=
  match firstQuote? rest with
  | none => some (.last (nameChunks number rest.toList))
  | some start => do
    let before ← slice? rest 0 start
    let quote ← (Utf8.bytes rest)[start]?
    let behind ← slice? rest start rest.utf8ByteSize
    match spanBytes? behind quote with
    | none => return .last (nameChunks number before.toList ++ [.kept behind.toList])
    | some length => do
      let span ← slice? rest start (start + length)
      let written ← requoteBytes? quote span
      let next ← slice? rest (start + length) rest.utf8ByteSize
      return .next (nameChunks number before.toList ++ [.kept written]) next

variable {number : String → Option Nat} {q : Char} {s t rest : List Char} {n : Nat}

/-! Names. -/

theorem nameChunks_eq (number : String → Option Nat) (s : List Char) :
    nameChunks number s = match s.dropWhile (· ≠ ':') with
      | [] => [.kept s]
      | colon :: rest =>
        .kept (s.takeWhile (· ≠ ':')) ::
          if rest.head?.any Ident.isStart then
            nameChunk number (rest.takeWhile Ident.isPart) ::
              nameChunks number (rest.dropWhile Ident.isPart)
          else .kept [colon] :: nameChunks number rest := by
  rw [nameChunks]
  split
  next h => rw [h]
  next colon rest h => rw [h]

theorem text_nameChunk (number : String → Option Nat) (name : List Char) :
    (nameChunk number name).text = token number name := by
  rw [nameChunk, token]
  cases number (String.ofList name) with
  | some n => rfl
  | none => rfl

theorem eq_colon {colon : Char} (h : s.dropWhile (· ≠ ':') = colon :: rest) : colon = ':' := by
  have first := List.head?_dropWhile_not (fun c => decide (c ≠ ':')) s
  rw [h] at first
  simpa using first

/-- The parts together are the text with its names rewritten. -/
theorem flatMap_nameChunks (number : String → Option Nat) (s : List Char) :
    (nameChunks number s).flatMap Chunk.text = numberNames number s := by
  induction s using nameChunks.induct with
  | case1 s hs =>
    have whole := List.takeWhile_append_dropWhile (p := (· ≠ ':')) (l := s)
    rw [hs, List.append_nil] at whole
    rw [nameChunks_eq, numberNames_eq, hs, whole]
    simp [Chunk.text]
  | case2 s colon rest hs ihname ih =>
    obtain rfl := eq_colon hs
    rw [nameChunks_eq, numberNames_eq, hs]
    dsimp only
    split
    next =>
      rw [List.flatMap_cons, List.flatMap_cons, ihname, text_nameChunk]
      rfl
    next =>
      rw [List.flatMap_cons, List.flatMap_cons, ih]
      rfl

theorem number_of_nameChunk {name : List Char} (h : nameChunk number name = .number n) :
    number (String.ofList name) = some n := by
  unfold nameChunk at h
  split at h
  next m hm =>
    obtain rfl := Chunk.number.inj h
    exact hm
  next => cases h

/-- A number in the parts is that of a name. -/
theorem number_of_mem_nameChunks (h : .number n ∈ nameChunks number s) :
    ∃ name, number name = some n := by
  induction s using nameChunks.induct with
  | case1 s hs =>
    rw [nameChunks_eq, hs] at h
    simp at h
  | case2 s colon rest hs ihname ih =>
    rw [nameChunks_eq, hs] at h
    dsimp only at h
    rcases List.mem_cons.mp h with h | h
    · cases h
    · split at h
      next =>
        rcases List.mem_cons.mp h with h | h
        · exact ⟨_, number_of_nameChunk h.symm⟩
        · exact ihname h
      next =>
        rcases List.mem_cons.mp h with h | h
        · cases h
        · exact ih h

/-! One round. -/

theorem firstQuote?_unquoted (hs : ∀ e ∈ s, isQuote e = false) : firstQuote? (.ofList s) = none := by
  have none : s.any isQuote = false := List.any_eq_false.mpr fun e he => by simp [hs e he]
  rw [firstQuote?, String.toList_ofList, none]
  rfl

theorem firstQuote?_append (hs : ∀ e ∈ s, isQuote e = false) (hq : isQuote q = true) :
    firstQuote? (.ofList (s ++ q :: t)) = some (String.ofList s).utf8ByteSize := by
  have any : (s ++ q :: t).any isQuote = true := by simp [hq]
  have before : (s ++ q :: t).takeWhile (!isQuote ·) = s :=
    takeWhile_run (fun e he => by rw [hs e he]; rfl) (by simp [hq])
  rw [firstQuote?, String.toList_ofList, any, before]
  rfl

theorem getElem?_bytes (hq : isQuote q = true) :
    (Utf8.bytes (.ofList (s ++ q :: t)))[(String.ofList s).utf8ByteSize]? = some (quoteByte q) := by
  have code : Utf8.bytes (.ofList (s ++ q :: t)) =
      Utf8.bytes (.ofList s) ++ quoteByte q :: encode t := by
    rw [bytes_ofList, bytes_ofList, encode, List.flatMap_append, List.flatMap_cons,
      encodeChar_quote hq]
    rfl
  rw [code, ← Utf8.length_bytes, List.getElem?_append_right (Nat.le_refl _), Nat.sub_self]
  rfl

theorem quoteByte_eq_iff (hq : isQuote q = true) : quoteByte q = quoteByte '\x60' ↔ q = '\x60' := by
  rcases quote_cases hq with rfl | rfl | rfl <;> decide

theorem requoteBytes?_enclose (hq : isQuote q = true) (text : List Char) :
    requoteBytes? (quoteByte q) (.ofList (Quoted.enclose q text)) =
      some (Quoted.enclose (newQuote q) text) := by
  rw [requoteBytes?, newQuote]
  by_cases h : q = '\x60'
  · subst h
    rw [if_pos rfl, if_pos rfl, slice?_enclose hq, Option.map_some, String.toList_ofList,
      Quoted.undouble_double]
  · rw [if_neg (mt (quoteByte_eq_iff hq).mp h), if_neg h, String.toList_ofList]

theorem round?_unquoted (hs : ∀ e ∈ s, isQuote e = false) :
    round? number (.ofList s) = some (.last (nameChunks number s)) := by
  rw [round?, firstQuote?_unquoted hs, String.toList_ofList]

/-- All the slices up to the look for the end of the span are defined. -/
theorem round?_quote (hs : ∀ e ∈ s, isQuote e = false) (hq : isQuote q = true) :
    round? number (.ofList (s ++ q :: t)) =
      match spanBytes? (.ofList (q :: t)) (quoteByte q) with
      | none => some (.last (nameChunks number s ++ [.kept (q :: t)]))
      | some length => do
        let start := (String.ofList s).utf8ByteSize
        let text := String.ofList (s ++ q :: t)
        let span ← slice? text start (start + length)
        let written ← requoteBytes? (quoteByte q) span
        let next ← slice? text (start + length) text.utf8ByteSize
        return .next (nameChunks number s ++ [.kept written]) next := by
  have before : slice? (.ofList (s ++ q :: t)) 0 (String.ofList s).utf8ByteSize =
      some (.ofList s) := by
    rw [String.ofList_append, Utf8.slice?_front]
  have behind : slice? (.ofList (s ++ q :: t)) (String.ofList s).utf8ByteSize
      (String.ofList (s ++ q :: t)).utf8ByteSize = some (.ofList (q :: t)) := by
    rw [String.ofList_append, Utf8.slice?_back]
  rw [round?, firstQuote?_append hs hq]
  simp only [before, behind, getElem?_bytes hq, Option.bind_eq_bind, Option.bind_some,
    String.toList_ofList]
  rfl

theorem round?_unclosed (hs : ∀ e ∈ s, isQuote e = false) (hq : isQuote q = true)
    (h : Quoted.bodyLength? q t = none) : round? number (.ofList (s ++ q :: t)) =
      some (.last (nameChunks number s ++ [.kept (q :: t)])) := by
  rw [round?_quote hs hq, spanBytes?_unclosed hq h]

theorem round?_span (hs : ∀ e ∈ s, isQuote e = false) (hq : isQuote q = true)
    (hrest : rest.head? ≠ some q) (text : List Char) :
    round? number (.ofList (s ++ (Quoted.enclose q text ++ rest))) =
      some (.next (nameChunks number s ++ [.kept (Quoted.enclose (newQuote q) text)])
        (.ofList rest)) := by
  have length := spanBytes?_enclose hq hrest text
  have round := @round?_quote number q s (Quoted.double q text ++ [q] ++ rest) hs hq
  have span := Utf8.slice?_append (.ofList s) (.ofList (Quoted.enclose q text)) (.ofList rest)
  have next := Utf8.slice?_back (.ofList s ++ .ofList (Quoted.enclose q text)) (.ofList rest)
  rw [← String.ofList_append, ← String.ofList_append] at span
  rw [String.append_assoc, ← String.ofList_append, ← String.ofList_append,
    String.utf8ByteSize_append] at next
  have whole : q :: (Quoted.double q text ++ [q] ++ rest) = Quoted.enclose q text ++ rest := rfl
  simp only [whole, length, span, requoteBytes?_enclose hq, next, Option.bind_eq_bind,
    Option.bind_some] at round
  exact round

/-- No offset of a round is refused, and what it leaves to do is shorter. -/
theorem round?_shortens (number : String → Option Nat) (text : String) :
    ∃ round, round? number text = some round ∧
      ∀ chunks rest, round = .next chunks rest → rest.utf8ByteSize < text.utf8ByteSize := by
  obtain ⟨s, rfl⟩ : ∃ s, String.ofList s = text := ⟨text.toList, String.ofList_toList⟩
  induction s using span_induction with
  | unquoted s hs => exact ⟨_, round?_unquoted hs, nofun⟩
  | unclosed s q t hs hq h => exact ⟨_, round?_unclosed hs hq h, nofun⟩
  | span s q text rest hs hq hrest _ =>
    refine ⟨_, round?_span hs hq hrest text, ?_⟩
    rintro _ _ ⟨⟩
    have opening : 0 < (String.ofList (Quoted.enclose q text)).utf8ByteSize := by
      rw [← Utf8.length_bytes, bytes_ofList, Quoted.enclose, encode, List.flatMap_cons,
        encodeChar_quote hq]
      exact Nat.succ_pos _
    rw [String.ofList_append, String.ofList_append, String.utf8ByteSize_append,
      String.utf8ByteSize_append]
    omega

theorem lt_of_round? {text next : String} {chunks : List Chunk}
    (h : round? number text = some (.next chunks next)) : next.utf8ByteSize < text.utf8ByteSize := by
  obtain ⟨round, hround, shorter⟩ := round?_shortens number text
  exact shorter chunks next (Option.some.inj (hround.symm.trans h))

/-! All rounds. -/

/-- Goes through a text round by round. -/
def scan? (number : String → Option Nat) (text : String) : Option (List Chunk) :=
  match _ : round? number text with
  | none => none
  | some (.last chunks) => some chunks
  | some (.next chunks rest) => (scan? number rest).map (chunks ++ ·)
  termination_by text.utf8ByteSize
  decreasing_by exact lt_of_round? ‹_›

theorem scan?_of_last {text : String} {chunks : List Chunk}
    (h : round? number text = some (.last chunks)) : scan? number text = some chunks := by
  rw [scan?]
  split <;> simp_all

theorem scan?_of_next {text next : String} {chunks : List Chunk}
    (h : round? number text = some (.next chunks next)) :
    scan? number text = (scan? number next).map (chunks ++ ·) := by
  rw [scan?]
  split <;> simp_all

/-- The scan by offsets finds what the scan by characters finds. -/
theorem scan?_ofList (number : String → Option Nat) (s : List Char) : ∃ chunks,
    scan? number (.ofList s) = some chunks ∧ chunks.flatMap Chunk.text = renumber number s ∧
      ∀ n, .number n ∈ chunks → ∃ name, number name = some n := by
  induction s using span_induction with
  | unquoted s hs =>
    refine ⟨_, scan?_of_last (round?_unquoted hs), ?_, fun n => number_of_mem_nameChunks⟩
    rw [flatMap_nameChunks, renumber_unquoted hs]
  | unclosed s q t hs hq h =>
    refine ⟨_, scan?_of_last (round?_unclosed hs hq h), ?_, fun n hn => ?_⟩
    · rw [renumber_append_quote hs hq, renumber_unclosed hq h, List.flatMap_append,
        flatMap_nameChunks, List.flatMap_singleton]
      rfl
    · rcases List.mem_append.mp hn with hn | hn
      · exact number_of_mem_nameChunks hn
      · cases List.mem_singleton.mp hn
  | span s q text rest hs hq hrest ih =>
    obtain ⟨chunks, hscan, htext, hnumber⟩ := ih
    have scan := scan?_of_next (@round?_span number q s rest hs hq hrest text)
    rw [hscan, Option.map_some] at scan
    refine ⟨_, scan, ?_, fun n hn => ?_⟩
    · rw [renumber_append_enclose hs hq, renumber_enclose hq hrest, List.flatMap_append,
        List.flatMap_append, flatMap_nameChunks, List.flatMap_singleton, htext, List.append_assoc]
      rfl
    · rcases List.mem_append.mp hn with hn | hn
      · rcases List.mem_append.mp hn with hn | hn
        · exact number_of_mem_nameChunks hn
        · cases List.mem_singleton.mp hn
      · exact hnumber n hn

/-! The numbers. -/

theorem spanBytes?_bounds {text : String} {quote : UInt8} {length : Nat}
    (h : spanBytes? text quote = some length) : 2 ≤ length ∧ length ≤ text.utf8ByteSize := by
  obtain ⟨hlow, hhigh⟩ := closing?_bounds h
  rw [Utf8.length_bytes] at hhigh
  exact ⟨hlow, hhigh⟩

/-- A number is one of a value. -/
theorem ranks_bounds {values : NamedValues} {name : String} (h : (ranks values)[name]? = some n) :
    1 ≤ n ∧ n ≤ values.values.length := by
  rw [ranks_eq] at h
  split at h
  next hname =>
    obtain ⟨i, hi⟩ := List.mem_iff_getElem?.mp (Std.TreeMap.mem_keys.mpr hname)
    obtain ⟨hlt, -⟩ := List.getElem?_eq_some_iff.mp hi
    have count : values.values.length = values.keys.length := by
      rw [NamedValues.values_eq, List.length_map, ← Std.TreeMap.map_fst_toList_eq_keys,
        List.length_map]
    rw [NamedValues.rank_of_getElem? hi, Option.some.injEq] at h
    omega
  next => cases h

/-- The rewriting of a query by offsets into its bytes. An offset is refused if it is not at the edge
of a part of the text. On any text a round refuses no offset and leaves less to do; a span has at
least its two quotes and is no longer than the text; all rounds together write what is written, and
each number in it is that of a value. -/
structure ScanSafe (q : NamedQuery) : Prop where
  offset : ∀ text start stop part, slice? text start stop = some part ↔
    ∃ front back, text = front ++ (part ++ back) ∧ start = front.utf8ByteSize ∧
      stop = start + part.utf8ByteSize
  round : ∀ text, ∃ round, round? ((ranks q.values)[·]?) text = some round ∧
    ∀ chunks rest, round = .next chunks rest → rest.utf8ByteSize < text.utf8ByteSize
  span : ∀ text quote length, spanBytes? text quote = some length →
    2 ≤ length ∧ length ≤ text.utf8ByteSize
  scan : ∃ chunks, scan? ((ranks q.values)[·]?) q.query = some chunks ∧
    String.ofList (chunks.flatMap Chunk.text) = q.positional.sql ∧
    ∀ n, .number n ∈ chunks → 1 ≤ n ∧ n ≤ q.positional.values.length

/-- No query and no values make the rewriting fail. -/
theorem scanSafe (q : NamedQuery) : ScanSafe q where
  offset _ _ _ _ := Utf8.slice?_eq_some_iff
  round := round?_shortens _
  span _ _ _ := spanBytes?_bounds
  scan := by
    obtain ⟨chunks, hscan, htext, hnumber⟩ := scan?_ofList ((ranks q.values)[·]?) q.query.toList
    rw [String.ofList_toList] at hscan
    refine ⟨chunks, hscan, by rw [htext]; rfl, fun n hn => ?_⟩
    obtain ⟨name, hname⟩ := hnumber n hn
    exact ranks_bounds hname

end FilterSql.Positional
