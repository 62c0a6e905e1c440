import Mathlib.Data.List.TakeWhile
import TimeSeriesEngine.Library.QuotedText
import TimeSeriesEngine.TaosClient

/-!
# The statement of a raw query

`queryRaw` puts a statement together from fixed texts, two quoted names, numbers and
the requested sequence ids.  Ids are arbitrary byte strings, so here the statement
is one too.

* `escapeLiteral_eq` — the loop of the code escapes symbol by symbol;
* `queryText_reads` — what a database reads the statement as: everything but the
  contents of the literals is fixed by the other arguments and the number of ids;
* `sent_statement` — the same of the part in front of a NUL byte, where `c_str()`
  ends;
* `escapeLiteral_utf8` — the literals of the string model are the same bytes.
-/

namespace SqlText

open TaosClient QuotedText

/-- A text, byte by byte. -/
abbrev Bytes := List UInt8

/-- The bytes of a text of the source, which is ASCII. -/
def ascii (text : String) : Bytes := text.toList.map fun ch => UInt8.ofNat ch.toNat

/-- The symbols of TDengine's SQL: quote, backslash and backtick. -/
def taosDialect : Dialect UInt8 where
  quote := 0x27
  escape := 0x5c
  nameMark := 0x60
  quote_ne_escape := by decide
  nameMark_ne_quote := by decide

/-! ## The parts of the statement -/

/-- `validDatabaseName`. -/
def validDatabaseName (database : Bytes) : Bool :=
  !database.isEmpty && decide (database.length ≤ 192) &&
    decide (0x60 ∉ database) && decide (0x00 ∉ database)

/-- `quoteIdentifier`. -/
def quoteIdentifier (value : Bytes) : Bytes := 0x60 :: value ++ [0x60]

/-- The loop over the bytes of a value, between two quotes. -/
def escapeLiteral (value : Bytes) : Bytes :=
  let escaped := value.foldl
    (fun escaped ch =>
      (if ch = 0x5c ∨ ch = 0x27 then escaped ++ [0x5c] else escaped) ++ [ch])
    []
  0x27 :: escaped ++ [0x27]

/-- The names of a client whose configuration was accepted. -/
structure ConfiguredNames where
  database : Bytes
  rawStableName : Bytes
  databaseValid : validDatabaseName database = true
  rawStableValid : validDatabaseName rawStableName = true

/-- A number as a stream writes it in this base. -/
def digits (base n : Nat) : Bytes := (Nat.toDigits base n).map fun ch => UInt8.ofNat ch.toNat

/-- A signed number as a stream writes it. -/
def decimal (n : Int) : Bytes := (if n < 0 then ascii "-" else []) ++ digits 10 n.natAbs

/-- `projectStableName`, byte by byte. -/
def projectStableName (baseName projectId : Bytes) : Bytes :=
  let hash := projectId.foldl (fun hash ch => hashByte hash ch.toNat) hashStart
  baseName ++ ascii "_p_" ++ digits 16 hash

/-- `valueColumn`; a typed projection is never of the unknown kind. -/
def valueColumn : TimeseriesValueKind → Bytes
  | .double => ascii "d_value"
  | .int64 => ascii "i_value"
  | .bool => ascii "b_value"
  | .string => ascii "s_value"
  | .unknown => []

/-- The projection, up to `FROM`. -/
def selectText : Option TimeseriesValueKind → Option Int → Bytes
  | some kind, some _ =>
      ascii "SELECT _wstart AS ts,LAST(" ++ valueColumn kind ++
        ascii ") AS value,LAST(value_type) AS value_type,sequence_id AS sequence_id FROM "
  | some kind, none =>
      ascii "SELECT ts AS ts," ++ valueColumn kind ++
        ascii " AS value,value_type AS value_type,sequence_id AS sequence_id FROM "
  | none, some _ =>
      ascii "SELECT _wstart AS ts,LAST(d_value) AS d_value," ++
        ascii "LAST(i_value) AS i_value,LAST(b_value) AS b_value," ++
        ascii "LAST(s_value) AS s_value,LAST(value_type) AS value_type," ++
        ascii "sequence_id AS sequence_id FROM "
  | none, none =>
      ascii "SELECT ts AS ts,d_value AS d_value,i_value AS i_value," ++
        ascii "b_value AS b_value,s_value AS s_value," ++
        ascii "value_type AS value_type,sequence_id AS sequence_id FROM "

/-- The loop over the requested ids, a comma in front of all but the first. -/
def inList (ids : List Bytes) : Bytes :=
  ids.zipIdx.flatMap fun item =>
    (if item.2 ≠ 0 then ascii "," else []) ++ escapeLiteral item.1

/-- The range of a query. -/
def rangeText (start finish : Int) : Bytes :=
  ascii ") AND ts >= " ++ decimal start ++ ascii " AND ts < " ++ decimal finish

/-- The end of a query: its groups, or its order. -/
def groupText : Option Int → Bytes
  | some granularity =>
      ascii " PARTITION BY sequence_id INTERVAL (" ++ decimal granularity ++ ascii "a)"
  | none => ascii " ORDER BY ts"

/-- The statement of `queryRaw`; the kind is the one of the typed projection. -/
def queryText (names : ConfiguredNames) (projectId : Bytes) (ids : List Bytes)
    (start finish : Int) (typedKind : Option TimeseriesValueKind) (granularity : Option Int) :
    Bytes :=
  selectText typedKind granularity ++ quoteIdentifier names.database ++ ascii "." ++
    quoteIdentifier (projectStableName names.rawStableName projectId) ++
    ascii " WHERE sequence_id IN (" ++ inList ids ++ rangeText start finish ++
    groupText granularity

/-! ## What the parts are read as -/

/-- The loop of the code escapes symbol by symbol. -/
theorem escapeLiteral_eq (value : Bytes) : escapeLiteral value = quoted taosDialect value := by
  have hloop : ∀ (value escaped : Bytes), value.foldl
      (fun escaped ch =>
        (if ch = 0x5c ∨ ch = 0x27 then escaped ++ [0x5c] else escaped) ++ [ch]) escaped =
        escaped ++ value.flatMap (escapeSymbol taosDialect) := by
    intro value
    induction value with
    | nil => exact fun escaped => by rw [List.foldl_nil, List.flatMap_nil, List.append_nil]
    | cons ch value ih =>
        intro escaped
        rw [List.foldl_cons, ih, List.flatMap_cons, ← List.append_assoc]
        refine congrArg (· ++ value.flatMap (escapeSymbol taosDialect)) ?_
        show _ = escaped ++ if ch = 0x5c ∨ ch = 0x27 then [0x5c, ch] else [ch]
        by_cases hspecial : ch = 0x5c ∨ ch = 0x27
        · rw [if_pos hspecial, if_pos hspecial, List.append_assoc, List.singleton_append]
        · rw [if_neg hspecial, if_neg hspecial]
  rw [escapeLiteral, hloop, List.nil_append, quoted]
  rfl

/-- No byte of a text means anything to the scanner, or ends a C string. -/
def Plain (text : Bytes) : Prop := ∀ symbol ∈ text, Ordinary taosDialect symbol ∧ symbol ≠ 0

-- over the bytes of the text, not over all bytes
instance (text : Bytes) : Decidable (Plain text) :=
  List.decidableBAll (fun symbol => Ordinary taosDialect symbol ∧ symbol ≠ 0) text

theorem Plain.append {text text' : Bytes} (h : Plain text) (h' : Plain text') :
    Plain (text ++ text') := fun symbol hsymbol =>
  (List.mem_append.mp hsymbol).elim (h symbol) (h' symbol)

theorem plain_digitChar : ∀ d < 16, Ordinary taosDialect (UInt8.ofNat (Nat.digitChar d).toNat) ∧
    UInt8.ofNat (Nat.digitChar d).toNat ≠ 0 := by
  decide +kernel

/-- Digits are plain. -/
theorem plain_digits {base : Nat} (hlow : 1 < base) (hhigh : base ≤ 16) (n : Nat) :
    Plain (digits base n) := by
  induction n using Nat.strong_induction_on with
  | _ n ih =>
      rw [digits, Nat.toDigits_eq_if hlow]
      by_cases hn : n < base
      · rw [if_pos hn]
        intro symbol hsymbol
        rw [List.map_singleton, List.mem_singleton] at hsymbol
        rw [hsymbol]
        exact plain_digitChar n (by omega)
      · rw [if_neg hn, List.map_append]
        refine Plain.append (ih (n / base) (Nat.div_lt_self (by omega) hlow)) ?_
        intro symbol hsymbol
        rw [List.map_singleton, List.mem_singleton] at hsymbol
        rw [hsymbol]
        exact plain_digitChar _ (lt_of_lt_of_le (Nat.mod_lt _ (by omega)) hhigh)

theorem plain_decimal (n : Int) : Plain (decimal n) := by
  refine Plain.append ?_ (plain_digits (by decide) (by decide) _)
  split <;> decide +kernel

theorem plain_valueColumn (kind : TimeseriesValueKind) : Plain (valueColumn kind) := by
  cases kind <;> decide +kernel

theorem plain_selectText (typedKind : Option TimeseriesValueKind) (granularity : Option Int) :
    Plain (selectText typedKind granularity) := by
  cases typedKind with
  | none =>
      cases granularity with
      | none => refine Plain.append (Plain.append ?_ ?_) ?_ <;> decide +kernel
      | some _ => refine Plain.append (Plain.append (Plain.append ?_ ?_) ?_) ?_ <;> decide +kernel
  | some kind =>
      cases granularity with
      | none => exact (Plain.append (by decide +kernel) (plain_valueColumn kind)).append (by decide +kernel)
      | some _ => exact (Plain.append (by decide +kernel) (plain_valueColumn kind)).append (by decide +kernel)

theorem plain_rangeText (start finish : Int) : Plain (rangeText start finish) :=
  ((Plain.append (by decide +kernel) (plain_decimal start)).append (by decide +kernel)).append
    (plain_decimal finish)

theorem plain_groupText (granularity : Option Int) : Plain (groupText granularity) := by
  cases granularity with
  | none => decide +kernel
  | some granularity => exact (Plain.append (by decide +kernel) (plain_decimal granularity)).append (by decide +kernel)

theorem reads_identifier {value : Bytes} (h : (0x60 : UInt8) ∉ value) :
    Reads taosDialect (quoteIdentifier value) [.name value] :=
  reads_name h

theorem not_mem_of_valid {database : Bytes} (h : validDatabaseName database = true) :
    (0x60 : UInt8) ∉ database ∧ (0x00 : UInt8) ∉ database := by
  simp only [validDatabaseName, Bool.and_eq_true, decide_eq_true_eq] at h
  exact ⟨h.1.2, h.2⟩

theorem Plain.reads {text : Bytes} (h : Plain text) :
    Reads taosDialect text (text.map .code) :=
  reads_code fun symbol hsymbol => (h symbol hsymbol).1

theorem Plain.not_mem_mark {text : Bytes} (h : Plain text) : (0x60 : UInt8) ∉ text :=
  fun hmem => (h _ hmem).1.2 rfl

theorem Plain.not_mem_zero {text : Bytes} (h : Plain text) : (0x00 : UInt8) ∉ text :=
  fun hmem => (h _ hmem).2 rfl

/-- What a project adds to the name of the stable. -/
theorem projectStableName_eq (baseName projectId : Bytes) :
    ∃ suffix, Plain suffix ∧ projectStableName baseName projectId = baseName ++ suffix :=
  ⟨_, Plain.append (by decide +kernel) (plain_digits (by decide) (by decide) _),
    List.append_assoc _ _ _⟩

theorem not_mem_projectStableName {baseName : Bytes} (h : validDatabaseName baseName = true)
    (projectId : Bytes) :
    (0x60 : UInt8) ∉ projectStableName baseName projectId ∧
      (0x00 : UInt8) ∉ projectStableName baseName projectId := by
  obtain ⟨suffix, hplain, heq⟩ := projectStableName_eq baseName projectId
  obtain ⟨hmark, hzero⟩ := not_mem_of_valid h
  rw [heq, List.mem_append, List.mem_append]
  exact ⟨not_or.mpr ⟨hmark, hplain.not_mem_mark⟩, not_or.mpr ⟨hzero, hplain.not_mem_zero⟩⟩

/-! ## The whole statement -/

/-- The pieces in front of the list: no argument is a literal there. -/
def headPieces (names : ConfiguredNames) (projectId : Bytes)
    (typedKind : Option TimeseriesValueKind) (granularity : Option Int) : List (Piece UInt8) :=
  (selectText typedKind granularity).map .code ++ [.name names.database] ++ [.code 0x2e] ++
    [.name (projectStableName names.rawStableName projectId)] ++
    (ascii " WHERE sequence_id IN (").map .code

/-- The ids as literals, with commas between them. -/
def listPieces (ids : List Bytes) : List (Piece UInt8) :=
  (ids.map Piece.literal).intersperse (.code 0x2c)

/-- The pieces behind the list. -/
def tailPieces (start finish : Int) (granularity : Option Int) : List (Piece UInt8) :=
  (rangeText start finish ++ groupText granularity).map .code

/-- The pieces of a list. -/
theorem listPieces_cons (first : Bytes) (rest : List Bytes) :
    listPieces (first :: rest) =
      .literal first :: rest.flatMap fun sequenceId => [.code 0x2c, .literal sequenceId] := by
  induction rest generalizing first with
  | nil => rfl
  | cons next rest ih =>
      have htail := ih next
      rw [listPieces] at htail ⊢
      rw [List.map_cons, List.map_cons, List.intersperse_cons_cons, ← List.map_cons, htail]
      rfl

/-- The text of a list. -/
theorem inList_cons (first : Bytes) (rest : List Bytes) :
    inList (first :: rest) =
      escapeLiteral first ++ rest.flatMap fun sequenceId => ascii "," ++ escapeLiteral sequenceId := by
  have hrest : ∀ n, (rest.zipIdx (n + 1)).flatMap (fun item =>
      (if item.2 ≠ 0 then ascii "," else []) ++ escapeLiteral item.1) =
        rest.flatMap fun sequenceId => ascii "," ++ escapeLiteral sequenceId := by
    induction rest with
    | nil => exact fun n => rfl
    | cons next rest ih =>
        intro n
        rw [List.zipIdx_cons, List.flatMap_cons, List.flatMap_cons, ih (n + 1),
          if_pos (Nat.succ_ne_zero n)]
  rw [inList, List.zipIdx_cons, List.flatMap_cons, hrest 0, if_neg (fun h => h rfl), List.nil_append]

/-- A list is read literal by literal. -/
theorem reads_inList (ids : List Bytes) : Reads taosDialect (inList ids) (listPieces ids) := by
  have hliteral : ∀ value, Reads taosDialect (escapeLiteral value) [.literal value] := fun value => by
    rw [escapeLiteral_eq]
    exact reads_quoted taosDialect value
  have hcomma : Reads taosDialect (ascii ",") [.code 0x2c] :=
    Plain.reads (show Plain (ascii ",") by decide +kernel)
  cases ids with
  | nil => exact reads_nil taosDialect
  | cons first rest =>
      rw [inList_cons, listPieces_cons]
      exact (hliteral first).append
        (Reads.flatMap fun sequenceId _ => hcomma.append (hliteral sequenceId))

/-- The literals of a list are its ids. -/
theorem literals_listPieces (ids : List Bytes) : literals (listPieces ids) = ids := by
  cases ids with
  | nil => rfl
  | cons first rest =>
      have hrest : literals (rest.flatMap fun sequenceId =>
          [Piece.code (0x2c : UInt8), .literal sequenceId]) = rest := by
        induction rest with
        | nil => rfl
        | cons next rest ih => exact congrArg (next :: ·) ih
      rw [listPieces_cons]
      exact congrArg (first :: ·) hrest

/-- The other pieces are no literals. -/
theorem literals_pieces (names : ConfiguredNames) (projectId : Bytes) (ids : List Bytes)
    (start finish : Int) (typedKind : Option TimeseriesValueKind) (granularity : Option Int) :
    literals (headPieces names projectId typedKind granularity ++ listPieces ids ++
      tailPieces start finish granularity) = ids := by
  have hname : ∀ name : Bytes, literals [Piece.name name] = [] := fun _ => rfl
  have hdot : literals [Piece.code (0x2e : UInt8)] = [] := rfl
  simp only [headPieces, tailPieces, literals_append, literals_code, hname, hdot,
    literals_listPieces, List.nil_append, List.append_nil]

/-- What the whole statement is read as. -/
theorem queryText_reads (names : ConfiguredNames) (projectId : Bytes) (ids : List Bytes)
    (start finish : Int) (typedKind : Option TimeseriesValueKind) (granularity : Option Int) :
    Reads taosDialect (queryText names projectId ids start finish typedKind granularity)
      (headPieces names projectId typedKind granularity ++ listPieces ids ++
        tailPieces start finish granularity) := by
  have hdatabase := reads_identifier (not_mem_of_valid names.databaseValid).1
  have hstable := reads_identifier (not_mem_projectStableName names.rawStableValid projectId).1
  have hhead := ((((plain_selectText typedKind granularity).reads.append hdatabase).append
    (show Plain (ascii ".") by decide +kernel).reads).append hstable).append
    (show Plain (ascii " WHERE sequence_id IN (") by decide +kernel).reads
  have hwhole := ((hhead.append (reads_inList ids)).append
    (plain_rangeText start finish).reads).append (plain_groupText granularity).reads
  rw [tailPieces, List.map_append, ← List.append_assoc]
  exact hwhole

/-! ## Reading it back -/

/-- **Literals cannot be broken out of.**  An escaped value reads back to its last
    byte, whatever follows, and in the statement of a raw query the ids are read as
    literals, one for each id and in order; everything else is read as if the ids
    were other ones. -/
theorem literals_not_broken_out :
    (∀ value rest : Bytes, readLiteral taosDialect (escapeLiteral value ++ rest) =
      some (value, rest)) ∧
    ∀ (names : ConfiguredNames) (projectId : Bytes) (start finish : Int)
      (typedKind : Option TimeseriesValueKind) (granularity : Option Int) (ids : List Bytes),
      scan taosDialect (queryText names projectId ids start finish typedKind granularity) =
          (.code, headPieces names projectId typedKind granularity ++ listPieces ids ++
            tailPieces start finish granularity) ∧
        literals (scan taosDialect
          (queryText names projectId ids start finish typedKind granularity)).2 = ids := by
  refine ⟨fun value rest => ?_, fun names projectId start finish typedKind granularity ids => ?_⟩
  · rw [escapeLiteral_eq]
    exact readLiteral_quoted taosDialect value rest
  · have hscan := (queryText_reads names projectId ids start finish typedKind granularity).scan
    refine ⟨hscan, ?_⟩
    rw [hscan]
    exact literals_pieces names projectId ids start finish typedKind granularity

/-! ## The statement the database is sent -/

/-- `c_str()`: the text in front of the first NUL byte. -/
def sentText (text : Bytes) : Bytes := text.takeWhile fun symbol => decide (symbol ≠ 0)

/-- Where a NUL byte cuts the statement short, what is left still reads as the same
    pieces. -/
theorem sent_statement (names : ConfiguredNames) (projectId : Bytes) (ids : List Bytes)
    (start finish : Int) (typedKind : Option TimeseriesValueKind) (granularity : Option Int) :
    (scan taosDialect
      (sentText (queryText names projectId ids start finish typedKind granularity))).2 <+:
      headPieces names projectId typedKind granularity ++ listPieces ids ++
        tailPieces start finish granularity := by
  have hcut := scan_pieces_mono taosDialect (List.takeWhile_prefix
    (fun symbol => decide (symbol ≠ 0))
    (l := queryText names projectId ids start finish typedKind granularity))
  rwa [(queryText_reads names projectId ids start finish typedKind granularity).scan] at hcut

/-- The symbols of a literal. -/
theorem mem_escapeLiteral {value : Bytes} {symbol : UInt8} (h : symbol ∈ escapeLiteral value) :
    symbol = 0x27 ∨ symbol = 0x5c ∨ symbol ∈ value := by
  rw [escapeLiteral_eq, quoted, List.mem_append, List.mem_cons, List.mem_singleton,
    List.mem_flatMap] at h
  rcases h with (hquote | ⟨ch, hch, hsymbol⟩) | hquote
  · exact Or.inl hquote
  · rw [escapeSymbol] at hsymbol
    split at hsymbol
    · rcases List.mem_pair.mp hsymbol with hescape | hself
      · exact Or.inr (Or.inl hescape)
      · exact Or.inr (Or.inr (hself ▸ hch))
    · exact Or.inr (Or.inr (List.mem_singleton.mp hsymbol ▸ hch))
  · exact Or.inl hquote

/-- Only an id can cut the statement short. -/
theorem sentText_eq {ids : List Bytes} (hids : ∀ sequenceId ∈ ids, (0x00 : UInt8) ∉ sequenceId)
    (names : ConfiguredNames) (projectId : Bytes) (start finish : Int)
    (typedKind : Option TimeseriesValueKind) (granularity : Option Int) :
    sentText (queryText names projectId ids start finish typedKind granularity) =
      queryText names projectId ids start finish typedKind granularity := by
  have hname : ∀ {value : Bytes}, (0x00 : UInt8) ∉ value → (0x00 : UInt8) ∉ quoteIdentifier value := by
    intro value hvalue
    simpa [quoteIdentifier] using hvalue
  have hlist : (0x00 : UInt8) ∉ inList ids := by
    intro hmem
    obtain ⟨item, hitem, hmem⟩ := List.mem_flatMap.mp hmem
    rcases List.mem_append.mp hmem with hcomma | hliteral
    · split at hcomma
      · exact absurd hcomma (by decide +kernel)
      · exact absurd hcomma (by simp)
    · rcases mem_escapeLiteral hliteral with h | h | h
      · exact absurd h (by decide)
      · exact absurd h (by decide)
      · exact hids _ (List.fst_mem_of_mem_zipIdx hitem) h
  have hwhole : (0x00 : UInt8) ∉
      queryText names projectId ids start finish typedKind granularity := by
    simp only [queryText, List.mem_append, not_or]
    exact ⟨⟨⟨⟨⟨⟨⟨(plain_selectText typedKind granularity).not_mem_zero,
      hname (not_mem_of_valid names.databaseValid).2⟩, by decide +kernel⟩,
      hname (not_mem_projectStableName names.rawStableValid projectId).2⟩, by decide +kernel⟩, hlist⟩,
      (plain_rangeText start finish).not_mem_zero⟩, (plain_groupText granularity).not_mem_zero⟩
  refine List.takeWhile_eq_self_iff.mpr fun symbol hsymbol => decide_eq_true fun hzero => ?_
  exact hwhole (hzero ▸ hsymbol)

/-! ## The literals of the string model -/

/-- The bytes of a text. -/
def utf8 (text : String) : Bytes := text.toByteArray.data.toList

theorem utf8_ofList (chars : List Char) :
    utf8 (String.ofList chars) = chars.flatMap String.utf8EncodeChar := by
  rw [utf8, String.toByteArray_ofList, List.utf8Encode, List.toList_data_toByteArray]

/-- The bytes of a character outside ASCII have their top bit set. -/
theorem top_bit_utf8 {ch : Char} (hch : ¬ ch.val ≤ 0x7f) {symbol : UInt8}
    (hmem : symbol ∈ String.utf8EncodeChar ch) : 0x80 ≤ symbol.toNat := by
  have hhigh : ∀ low mark : UInt8, 0x80 ≤ mark.toNat → 0x80 ≤ (low ||| mark).toNat :=
    fun low mark hmark => by
      rw [UInt8.toNat_or]
      exact le_trans hmark Nat.right_le_or
  rw [String.utf8EncodeChar_eq_utf8EncodeCharFast, String.utf8EncodeCharFast, if_neg hch] at hmem
  split at hmem
  · simp only [List.mem_cons, List.not_mem_nil, or_false] at hmem
    rcases hmem with rfl | rfl <;> exact hhigh _ _ (by decide)
  · split at hmem
    · simp only [List.mem_cons, List.not_mem_nil, or_false] at hmem
      rcases hmem with rfl | rfl | rfl <;> exact hhigh _ _ (by decide)
    · simp only [List.mem_cons, List.not_mem_nil, or_false] at hmem
      rcases hmem with rfl | rfl | rfl | rfl <;> exact hhigh _ _ (by decide)

/-- A quote or a backslash among the bytes of a character is that character. -/
theorem special_of_mem_utf8 {ch : Char} {symbol : UInt8}
    (hmem : symbol ∈ String.utf8EncodeChar ch) (hspecial : symbol = 0x5c ∨ symbol = 0x27) :
    ch = '\\' ∨ ch = '\'' := by
  by_cases hch : ch.val ≤ 0x7f
  · rw [String.utf8EncodeChar_eq_utf8EncodeCharFast, String.utf8EncodeCharFast, if_pos hch,
      List.mem_singleton] at hmem
    have hval : symbol.toNat = ch.toNat := by
      rw [hmem, UInt32.toNat_toUInt8]
      exact Nat.mod_eq_of_lt (lt_of_le_of_lt (UInt32.le_iff_toNat_le.mp hch) (by decide))
    refine hspecial.imp (fun h => ?_) fun h => ?_
    · exact Char.toNat_inj.mp (hval.symm.trans (h ▸ rfl))
    · exact Char.toNat_inj.mp (hval.symm.trans (h ▸ rfl))
  · have htop := top_bit_utf8 hch hmem
    rcases hspecial with rfl | rfl <;> exact absurd htop (by decide)

/-- The literals of the string model are the bytes of the code. -/
theorem escapeLiteral_utf8 (value : String) :
    utf8 (TaosClient.escapeLiteral value) = escapeLiteral (utf8 value) := by
  have hchar : ∀ ch : Char,
      (if ch = '\\' ∨ ch = '\'' then ['\\', ch] else [ch]).flatMap String.utf8EncodeChar =
        (String.utf8EncodeChar ch).flatMap (escapeSymbol taosDialect) := by
    intro ch
    by_cases hspecial : ch = '\\' ∨ ch = '\''
    · rw [if_pos hspecial]
      rcases hspecial with rfl | rfl <;> decide
    · have hordinary : ∀ symbol ∈ String.utf8EncodeChar ch,
          escapeSymbol taosDialect symbol = [symbol] := fun symbol hmem =>
        if_neg fun h => hspecial (special_of_mem_utf8 hmem h)
      rw [if_neg hspecial, List.flatMap_singleton, List.flatMap_congr hordinary,
        List.flatMap_singleton']
  have htext : TaosClient.escapeLiteral value = String.ofList ('\'' ::
      (value.toList.flatMap fun ch =>
        if ch = '\\' ∨ ch = '\'' then ['\\', ch] else [ch]) ++ ['\'']) := by
    rw [TaosClient.escapeLiteral, List.cons_append, ← List.singleton_append, String.ofList_append,
      String.ofList_append, String.append_assoc]
  have hvalue : utf8 value = value.toList.flatMap String.utf8EncodeChar := by
    rw [← utf8_ofList, String.ofList_toList]
  have hquote : String.utf8EncodeChar '\'' = [0x27] := by decide
  rw [htext, utf8_ofList, List.cons_append, List.flatMap_cons, List.flatMap_append,
    List.flatMap_assoc, List.flatMap_singleton, hquote, hvalue, escapeLiteral_eq, quoted,
    List.flatMap_assoc, List.flatMap_congr fun ch _ => hchar ch]
  rfl

end SqlText
