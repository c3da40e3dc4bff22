import FeedHandler.Server.Pacing

/-! The option loop of the simulator's `main` (`main_server.cpp`): `-p`, `-s` and `-r`, read
with `std::stoi` and `std::stoul` before the simulator is built.

Both conversions read what `strtol` and `strtoul` read in base 10: white space, at most one sign
and a run of digits, with whatever follows ignored (`scanDecimal_append`,
`scanDecimal_eq_some`). The value is then narrowed as the code's types narrow it: `-p` goes
through `int` to `uint16_t`; `-s` is a `size_t`, where `strtoul` negates modulo `2^64` after a
minus sign; `-r` goes through `unsigned long` to `uint32_t` (`Flag.read_eq_set`). Options are
applied left to right, and a known option with nothing after it is an unknown option. -/

namespace FeedHandler.Server
open Protocol

/-! ## `strtol` and `strtoul` in base 10 -/

/-- `isspace` in the "C" locale: the space, and `\t` to `\r`. -/
def isSpace (c : Char) : Bool := c.toNat = 32 || (9 ≤ c.toNat && c.toNat ≤ 13)

/-- The sign `strtol` reads: a minus sign makes the value negative, a plus sign is skipped. -/
def splitSign : List Char → Bool × List Char
  | c :: rest => if c = '-' then (true, rest) else if c = '+' then (false, rest) else (false, c :: rest)
  | [] => (false, [])

/-- The value of a run of decimal digits. -/
def digitsValue (ds : List Char) : Nat := ds.foldl (fun v c => 10 * v + (c.toNat - 48)) 0

/-- What `strtol` and `strtoul` read in base 10: after leading white space and a sign, the
longest run of digits, as the sign and the digits' value; `none` when there is no digit, and
nothing is converted. -/
def scanDecimal (s : List Char) : Option (Bool × Nat) :=
  let signed := splitSign (s.dropWhile isSpace)
  let ds := signed.2.takeWhile Char.isDigit
  if ds = [] then none else some (signed.1, digitsValue ds)

/-- The exceptions of `std::stoi` and `std::stoul`. -/
inductive StdException
  | invalidArgument
  | outOfRange
  deriving DecidableEq, Repr

/-- `std::stoi(str)`: `strtol`, then `std::invalid_argument` if nothing was converted, and
`std::out_of_range` if `strtol` overflowed `long` (`ERANGE`) or the value is outside `int`. -/
def stoi (str : String) : Except StdException Int :=
  match scanDecimal str.toList with
  | none => .error .invalidArgument
  | some (negative, magnitude) =>
    let v : Int := if negative then -magnitude else magnitude
    if v < -2147483648 ∨ 2147483647 < v then .error .outOfRange else .ok v

/-- `std::stoul(str)`: `strtoul`, which sets `ERANGE` when the digits exceed `ULONG_MAX` and
otherwise negates its result in `unsigned long` after a minus sign. -/
def stoul (str : String) : Except StdException UInt64 :=
  match scanDecimal str.toList with
  | none => .error .invalidArgument
  | some (negative, magnitude) =>
    if 18446744073709551615 < magnitude then .error .outOfRange
    else .ok (if negative then -UInt64.ofNat magnitude else UInt64.ofNat magnitude)

/-! ## The option loop -/

/-- The settings `main` reads: `port`, `num_symbols` and `tick_rate`. -/
structure Config where
  port : UInt16
  numSymbols : UInt64
  tickRate : UInt32
  deriving DecidableEq, Repr

/-- The defaults: port `9876`, `100` symbols, `100000` ticks a second. -/
def Config.default : Config := ⟨9876, 100, 100000⟩

/-- How the option loop ends: `-h` or `--help`, the usage and `return 0` (`help`);
`Unknown option: <arg>`, the usage and `return 1` (`unknownOption`); `std::stoi` or `std::stoul`
threw, and nothing catches it (`thrown`); the loop ran to the end, and the simulator is built with
these settings (`start`). -/
inductive Launch
  | help
  | unknownOption (arg : String)
  | thrown (e : StdException)
  | start (config : Config)
  deriving DecidableEq, Repr

/-- What `main` returns when the loop ends it, and what it writes to `std::cerr` first. -/
def Launch.exit : Launch → Option (Nat × String)
  | .help => some (0, "")
  | .unknownOption arg => some (1, "Unknown option: " ++ arg)
  | _ => none

/-- `static_cast<uint16_t>` of an `int`: the value modulo `2^16`. -/
def narrowToUInt16 (v : Int) : UInt16 := UInt16.ofNat (v % 65536).toNat

/-- The loop over `argv[1]`, `argv[2]`, …: an option that takes a value reads the next argument
when there is one, and is an unknown option when there is not. -/
def parseArguments (c : Config) : List String → Launch
  | [] => .start c
  | arg :: rest =>
    if arg = "-h" ∨ arg = "--help" then .help
    else
      match arg, rest with
      | "-p", value :: rest =>
        match stoi value with
        | .error e => .thrown e
        | .ok v => parseArguments { c with port := narrowToUInt16 v } rest
      | "-s", value :: rest =>
        match stoul value with
        | .error e => .thrown e
        | .ok v => parseArguments { c with numSymbols := v } rest
      | "-r", value :: rest =>
        match stoul value with
        | .error e => .thrown e
        | .ok v => parseArguments { c with tickRate := UInt32.ofNat v.toNat } rest
      | _, _ => .unknownOption arg

/-- What `main` builds from the settings: `ExchangeSimulator(port, num_symbols)`, whose ticker
has `num_symbols` symbols, and its pacing after `set_tick_rate(tick_rate)`. -/
def Config.simulator (c : Config) : Ticker × Pacer :=
  (Ticker.new c.numSymbols.toNat, Pacer.new.setTickRate c.tickRate)

/-! ## Reading one number -/

theorem toNat_digitChar (k : Nat) (h : k < 10) : (Char.ofNat (48 + k)).toNat = 48 + k := by
  have hv : (48 + k).isValidChar := Or.inl (by omega)
  simp only [Char.ofNat, dif_pos hv, Char.ofNatAux, Char.toNat]
  rfl

theorem isDigit_iff (c : Char) : c.isDigit = true ↔ 48 ≤ c.toNat ∧ c.toNat ≤ 57 := by
  simp only [Char.isDigit, Bool.and_eq_true, decide_eq_true_eq]
  exact Iff.rfl

theorem isSpace_of_isDigit {c : Char} (h : c.isDigit = true) : isSpace c = false := by
  rw [isDigit_iff] at h
  simp only [isSpace, Bool.or_eq_false_iff, decide_eq_false_iff_not, Bool.and_eq_false_imp,
    decide_eq_true_eq]
  omega

theorem digitsValue_append (ds : List Char) (c : Char) :
    digitsValue (ds ++ [c]) = 10 * digitsValue ds + (c.toNat - 48) := by
  simp only [digitsValue, List.foldl_append, List.foldl_cons, List.foldl_nil]

/-- A number's digits and an optional sign, after white space, with anything but a digit after
them: the form the two conversions read. -/
structure Numeral (w sign ds rest : List Char) : Prop where
  space : ∀ c ∈ w, isSpace c = true
  sign : sign = [] ∨ sign = ['+'] ∨ sign = ['-']
  digits_ne : ds ≠ []
  digits : ∀ c ∈ ds, c.isDigit = true
  rest : ∀ c ∈ rest.head?, c.isDigit = false

theorem Numeral.takeWhile {w sign ds rest : List Char} (h : Numeral w sign ds rest) :
    (ds ++ rest).takeWhile Char.isDigit = ds := by
  rw [List.takeWhile_append_of_pos h.digits]
  cases rest with
  | nil => rw [List.takeWhile_nil, List.append_nil]
  | cons r rest => rw [List.takeWhile_cons_of_neg (by simp [h.rest r rfl]), List.append_nil]

/-- **What the conversions read**: the sign and the value of the digits, whatever the white space
before them and whatever follows. -/
theorem scanDecimal_append {w sign ds rest : List Char} (h : Numeral w sign ds rest) :
    scanDecimal (w ++ sign ++ ds ++ rest) = some (decide (sign = ['-']), digitsValue ds) := by
  obtain ⟨d, ds', rfl⟩ := List.exists_cons_of_ne_nil h.digits_ne
  have hd : d.isDigit = true := h.digits d (List.mem_cons_self _ _)
  have hsigned : splitSign ((w ++ sign ++ (d :: ds') ++ rest).dropWhile isSpace) =
      (decide (sign = ['-']), d :: ds' ++ rest) := by
    rw [List.append_assoc, List.append_assoc, List.dropWhile_append_of_pos h.space]
    rcases h.sign with rfl | rfl | rfl
    · have hd' : d ≠ '-' ∧ d ≠ '+' := by
        constructor <;> (rintro rfl; exact absurd hd (by decide))
      simp only [List.nil_append, List.cons_append, splitSign, isSpace_of_isDigit hd,
        List.dropWhile_cons_of_neg (by simp [isSpace_of_isDigit hd] : ¬isSpace d = true),
        if_neg hd'.1, if_neg hd'.2]
      rfl
    · rfl
    · rfl
  simp only [scanDecimal, hsigned, h.takeWhile, reduceCtorEq, if_false]

/-- A conversion that reads something read a numeral of that form. -/
theorem scanDecimal_eq_some {s : List Char} {negative : Bool} {v : Nat}
    (h : scanDecimal s = some (negative, v)) :
    ∃ w sign ds rest, Numeral w sign ds rest ∧ s = w ++ sign ++ ds ++ rest ∧
      negative = decide (sign = ['-']) ∧ v = digitsValue ds := by
  obtain ⟨sign, u, hsign, htu, hsplit⟩ : ∃ sign u, (sign = [] ∨ sign = ['+'] ∨ sign = ['-']) ∧
      s.dropWhile isSpace = sign ++ u ∧ splitSign (s.dropWhile isSpace) = (decide (sign = ['-']), u) := by
    cases s.dropWhile isSpace with
    | nil => exact ⟨[], [], Or.inl rfl, rfl, rfl⟩
    | cons c r =>
      by_cases hm : c = '-'
      · subst hm
        exact ⟨['-'], r, Or.inr (Or.inr rfl), rfl, rfl⟩
      by_cases hp : c = '+'
      · subst hp
        exact ⟨['+'], r, Or.inr (Or.inl rfl), rfl, rfl⟩
      exact ⟨[], c :: r, Or.inl rfl, rfl, by simp only [splitSign, if_neg hm, if_neg hp]; rfl⟩
  simp only [scanDecimal, hsplit] at h
  split_ifs at h with hds
  obtain ⟨rfl, rfl⟩ := Prod.mk.inj (Option.some.inj h)
  refine ⟨s.takeWhile isSpace, sign, u.takeWhile Char.isDigit, u.dropWhile Char.isDigit,
    ⟨fun c hc => List.mem_takeWhile_imp hc, hsign, hds, fun c hc => List.mem_takeWhile_imp hc, ?_⟩,
    ?_, rfl, rfl⟩
  · intro c hc
    have hne : u.dropWhile Char.isDigit ≠ [] := fun h => by simp [h] at hc
    have := List.head_dropWhile_not Char.isDigit u hne
    rwa [← Option.some.inj ((List.head?_eq_head hne).symm.trans hc)]
  · rw [List.append_assoc, List.takeWhile_append_dropWhile, List.append_assoc, ← htu,
      List.takeWhile_append_dropWhile]

/-! ## Options -/

/-- An option of `main` that takes a value. -/
inductive Flag
  | port
  | numSymbols
  | tickRate
  deriving DecidableEq, Repr

/-- The option as it is written. -/
def Flag.arg : Flag → String
  | .port => "-p"
  | .numSymbols => "-s"
  | .tickRate => "-r"

/-- The option's branch of the loop: the conversion of its value, and the field it sets. -/
def Flag.read (c : Config) (value : String) : Flag → Except StdException Config
  | .port => (stoi value).map fun v => { c with port := narrowToUInt16 v }
  | .numSymbols => (stoul value).map fun v => { c with numSymbols := v }
  | .tickRate => (stoul value).map fun v => { c with tickRate := UInt32.ofNat v.toNat }

theorem parseArguments_flag (c : Config) (f : Flag) (value : String) (rest : List String) :
    parseArguments c (f.arg :: value :: rest) =
      match f.read c value with
      | .error e => .thrown e
      | .ok c' => parseArguments c' rest := by
  cases f <;> simp only [Flag.arg, Flag.read, parseArguments] <;> rw [if_neg (by decide)] <;>
    split <;> (rename_i h; rw [h]; rfl)

/-- The number a numeral writes: its digits' value, negated after a minus sign. -/
def numeralValue (sign ds : List Char) : Int :=
  if sign = ['-'] then -(digitsValue ds : Int) else digitsValue ds

/-- What an option does with the number written after it, as the code's types narrow it: `-p`
reads an `int` and keeps it modulo `2^16`; `-s` and `-r` read digits up to `2^64 - 1`, negated
modulo `2^64` after a minus sign, and `-r` keeps the result modulo `2^32`. -/
def Flag.set (c : Config) (v : Int) : Flag → Except StdException Config
  | .port =>
    if v < -2 ^ 31 ∨ 2 ^ 31 ≤ v then .error .outOfRange
    else .ok { c with port := UInt16.ofNat (v % 2 ^ 16).toNat }
  | .numSymbols =>
    if 2 ^ 64 ≤ v.natAbs then .error .outOfRange
    else .ok { c with numSymbols := UInt64.ofNat (v % 2 ^ 64).toNat }
  | .tickRate =>
    if 2 ^ 64 ≤ v.natAbs then .error .outOfRange
    else .ok { c with tickRate := UInt32.ofNat (v % 2 ^ 32).toNat }

/-- `strtoul`'s negation after a minus sign is the written number modulo `2^64`. -/
theorem uint64_ofNat_signed (m : Nat) (negative : Bool) :
    (if negative then -UInt64.ofNat m else UInt64.ofNat m) =
      UInt64.ofNat ((if negative then -(m : Int) else m) % 2 ^ 64).toNat := by
  apply UInt64.toNat.inj
  cases negative
  · simp only [Bool.false_eq_true, if_false, uint64_toNat_ofNat]
    omega
  · show (2 ^ 64 - (UInt64.ofNat m).toNat) % 2 ^ 64 = _
    simp only [if_true, uint64_toNat_ofNat]
    omega

/-- **Reading an option's value**: each option converts the numeral after it as `strtol` or
`strtoul` reads it, whatever white space comes before and whatever follows, and sets its field
as `Flag.set` says. -/
theorem Flag.read_eq_set (c : Config) (f : Flag) {w sign ds rest : List Char}
    (h : Numeral w sign ds rest) :
    f.read c ⟨w ++ sign ++ ds ++ rest⟩ = f.set c (numeralValue sign ds) := by
  have hscan := scanDecimal_append h
  have hv : numeralValue sign ds =
      if decide (sign = ['-']) then -(digitsValue ds : Int) else digitsValue ds := by
    simp only [numeralValue, decide_eq_true_eq]
  have habs : (numeralValue sign ds).natAbs = digitsValue ds := by
    unfold numeralValue
    split <;> simp
  cases f
  · simp only [Flag.read, Flag.set, stoi, String.toList, hscan, ← hv]
    split_ifs with h₁ h₂ h₂
    · rfl
    · omega
    · omega
    · exact congrArg (fun p => Except.ok { c with port := p }) rfl
  all_goals
    simp only [Flag.read, Flag.set, stoul, String.toList, hscan, habs]
    by_cases hr : 18446744073709551615 < digitsValue ds
    · rw [if_pos hr, if_pos (show 2 ^ 64 ≤ digitsValue ds by omega)]
      rfl
    rw [if_neg hr, if_neg (show ¬2 ^ 64 ≤ digitsValue ds by omega), uint64_ofNat_signed, ← hv]
  · rfl
  · refine congrArg (fun r => Except.ok { c with tickRate := r }) (UInt32.toNat.inj ?_)
    simp only [uint32_toNat_ofNat, uint64_toNat_ofNat]
    omega

/-- A value with no numeral in it: nothing is converted, and `std::invalid_argument` is thrown. -/
theorem Flag.read_invalid (c : Config) (f : Flag) {value : String}
    (h : ¬∃ w sign ds rest, Numeral w sign ds rest ∧ value.toList = w ++ sign ++ ds ++ rest) :
    f.read c value = .error .invalidArgument := by
  have hscan : scanDecimal value.toList = none := by
    cases hs : scanDecimal value.toList with
    | none => rfl
    | some r =>
      obtain ⟨w, sign, ds, rest, hn, hv, -⟩ := scanDecimal_eq_some hs
      exact absurd ⟨w, sign, ds, rest, hn, hv⟩ h
  cases f <;> simp only [Flag.read, stoi, stoul, hscan] <;> rfl

/-- **How `main` reads an option's value.** After `-p`, `-s` or `-r`, an argument with white
space, a sign and digits in front, followed by anything, sets the option's field to the number
written there as the code narrows it (`Flag.set`), or throws `std::out_of_range`; any other
argument throws `std::invalid_argument`. -/
theorem parseArguments_value (c : Config) (f : Flag) (value : String) (tail : List String) :
    (∀ w sign ds rest, Numeral w sign ds rest → value.toList = w ++ sign ++ ds ++ rest →
      parseArguments c (f.arg :: value :: tail) =
        match f.set c (numeralValue sign ds) with
        | .error e => .thrown e
        | .ok c' => parseArguments c' tail) ∧
    ((¬∃ w sign ds rest, Numeral w sign ds rest ∧ value.toList = w ++ sign ++ ds ++ rest) →
      parseArguments c (f.arg :: value :: tail) = .thrown .invalidArgument) := by
  refine ⟨fun w sign ds rest hn hv => ?_, fun h => ?_⟩
  · obtain ⟨chars⟩ := value
    change chars = _ at hv
    subst hv
    rw [parseArguments_flag, Flag.read_eq_set c f hn]
  · rw [parseArguments_flag, Flag.read_invalid c f h]

/-- `-s "  -1x"`: white space, a minus sign, one digit and a letter; `strtoul` negates the `1`
modulo `2^64`. -/
theorem parseArguments_value_wraps :
    Numeral [' ', ' '] ['-'] ['1'] ['x'] ∧
      parseArguments .default ["-s", "  -1x"] =
        .start { Config.default with numSymbols := 18446744073709551615 } := by
  have hn : Numeral [' ', ' '] ['-'] ['1'] ['x'] :=
    ⟨by decide, Or.inr (Or.inr rfl), nofun, by decide, by decide⟩
  refine ⟨hn, ?_⟩
  show parseArguments .default [Flag.numSymbols.arg, "  -1x"] = _
  rw [(parseArguments_value .default .numSymbols "  -1x" []).1 _ _ _ _ hn rfl]
  decide

/-! ## Command lines -/

/-- The decimal digits of `n`, the last one written last. -/
def decimal (n : Nat) : List Char :=
  (if n < 10 then [] else decimal (n / 10)) ++ [Char.ofNat (48 + n % 10)]
decreasing_by omega

/-- A number as it is written on a command line: its digits, after a minus sign if it is
negative. -/
def signedDecimal (v : Int) : String :=
  ⟨(if v < 0 then ['-'] else []) ++ decimal v.natAbs⟩

/-- A list of options, each followed by its number in decimal. -/
def optionArgs (opts : List (Flag × Int)) : List String :=
  opts.flatMap fun o => [o.1.arg, signedDecimal o.2]

/-- The command line that sets every field to its value in `c`. -/
def Config.args (c : Config) : List String :=
  optionArgs [(.port, c.port.toNat), (.numSymbols, c.numSymbols.toNat), (.tickRate, c.tickRate.toNat)]

theorem decimal_eq (n : Nat) :
    decimal n = (if n < 10 then [] else decimal (n / 10)) ++ [Char.ofNat (48 + n % 10)] := by
  rw [decimal]

theorem digitsValue_decimal (n : Nat) : digitsValue (decimal n) = n := by
  induction n using Nat.strong_induction_on with
  | _ n ih =>
    rw [decimal_eq, digitsValue_append, toNat_digitChar _ (Nat.mod_lt _ (by omega))]
    split
    · show 10 * 0 + _ = n
      omega
    · rw [ih _ (by omega)]
      omega

theorem isDigit_decimal (n : Nat) : ∀ c ∈ decimal n, c.isDigit = true := by
  induction n using Nat.strong_induction_on with
  | _ n ih =>
    intro c hc
    rw [decimal_eq, List.mem_append, List.mem_singleton] at hc
    rcases hc with hc | rfl
    · split at hc
      · cases hc
      · exact ih _ (by omega) c hc
    · rw [isDigit_iff, toNat_digitChar _ (Nat.mod_lt _ (by omega))]
      omega

theorem numeral_signedDecimal (v : Int) :
    Numeral [] (if v < 0 then ['-'] else []) (decimal v.natAbs) [] ∧
      numeralValue (if v < 0 then ['-'] else []) (decimal v.natAbs) = v := by
  refine ⟨⟨nofun, by split <;> simp, by rw [decimal_eq]; simp, isDigit_decimal _, nofun⟩, ?_⟩
  by_cases hv : v < 0
  · simp only [numeralValue, if_pos hv, if_true, digitsValue_decimal]
    omega
  · simp only [numeralValue, if_neg hv, List.nil_eq, reduceCtorEq, if_false, digitsValue_decimal]
    omega

theorem parseArguments_signedDecimal (c : Config) (f : Flag) (v : Int) (tail : List String) :
    parseArguments c (f.arg :: signedDecimal v :: tail) =
      match f.set c v with
      | .error e => .thrown e
      | .ok c' => parseArguments c' tail := by
  obtain ⟨hn, hv⟩ := numeral_signedDecimal v
  have hs : signedDecimal v = ⟨[] ++ (if v < 0 then ['-'] else []) ++ decimal v.natAbs ++ []⟩ := by
    simp [signedDecimal]
  rw [parseArguments_flag, hs, Flag.read_eq_set c f hn, hv]

theorem parseArguments_optionArgs (c : Config) (opts : List (Flag × Int)) (tail : List String) :
    parseArguments c (optionArgs opts ++ tail) =
      match opts.foldlM (fun c o => o.1.set c o.2) c with
      | .error e => .thrown e
      | .ok c' => parseArguments c' tail := by
  induction opts generalizing c with
  | nil => rfl
  | cons o opts ih =>
    show parseArguments c (o.1.arg :: signedDecimal o.2 :: (optionArgs opts ++ tail)) = _
    rw [parseArguments_signedDecimal, List.foldlM_cons]
    cases o.1.set c o.2 with
    | error e => rfl
    | ok c' => exact ih c'

/-- **Command lines.** Options followed by numbers in decimal are applied left to right, each as
`Flag.set` says, until one is out of range; the loop then goes on with what follows. So every
setting has a command line, and it gives that setting back from any defaults. -/
theorem parseArguments_options :
    (∀ (c : Config) (opts : List (Flag × Int)) (tail : List String),
      parseArguments c (optionArgs opts ++ tail) =
        match opts.foldlM (fun c o => o.1.set c o.2) c with
        | .error e => .thrown e
        | .ok c' => parseArguments c' tail) ∧
    ∀ c₀ c : Config, parseArguments c₀ c.args = .start c := by
  refine ⟨parseArguments_optionArgs, fun c₀ c => ?_⟩
  have hp : c.port.toNat < 2 ^ 16 := c.port.toNat_lt_size
  have hs : c.numSymbols.toNat < 2 ^ 64 := c.numSymbols.toNat_lt_size
  have hr : c.tickRate.toNat < 2 ^ 32 := c.tickRate.toNat_lt_size
  have hport : ∀ c', Flag.port.set c' c.port.toNat = .ok { c' with port := c.port } := fun c' => by
    have : UInt16.ofNat ((c.port.toNat : Int) % 2 ^ 16).toNat = c.port :=
      UInt16.toNat.inj (by rw [uint16_toNat_ofNat]; omega)
    rw [Flag.set, if_neg (by omega), this]
  have hsymbols : ∀ c', Flag.numSymbols.set c' c.numSymbols.toNat =
      .ok { c' with numSymbols := c.numSymbols } := fun c' => by
    have : UInt64.ofNat ((c.numSymbols.toNat : Int) % 2 ^ 64).toNat = c.numSymbols :=
      UInt64.toNat.inj (by rw [uint64_toNat_ofNat]; omega)
    rw [Flag.set, if_neg (by omega), this]
  have hrate : ∀ c', Flag.tickRate.set c' c.tickRate.toNat =
      .ok { c' with tickRate := c.tickRate } := fun c' => by
    have : UInt32.ofNat ((c.tickRate.toNat : Int) % 2 ^ 32).toNat = c.tickRate :=
      UInt32.toNat.inj (by rw [uint32_toNat_ofNat]; omega)
    rw [Flag.set, if_neg (by omega), this]
  rw [Config.args, ← List.append_nil (optionArgs _), parseArguments_optionArgs]
  simp only [List.foldlM_cons, List.foldlM_nil, hport, hsymbols, hrate]
  rfl

end FeedHandler.Server
