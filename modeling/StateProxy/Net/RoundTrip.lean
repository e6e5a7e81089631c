import StateProxy.Net.Text

/-! What the standard library displays it also reads: the text of a socket address is read back as the
address, up to the flow information of an IPv6 address, which the text does not have. -/

namespace StateProxy.Net

open ProofKit

/-! ### Numbers and IPv4 addresses -/

theorem readNumber_numeral {radix : Nat} (hradix : 1 < radix) (hradix' : radix ≤ 16)
    {maxDigits : Option Nat} (allowZeroPrefix : Bool) {bound n : Nat} (hn : n < bound)
    (hmax : ∀ k, maxDigits = some k → (digits radix n).length ≤ k) {text : List Char}
    (htext : Stops (toDigit radix) text) :
    readNumber radix maxDigits allowZeroPrefix bound (numeral radix n ++ text) = some (n, text) := by
  have hshort : ¬ maxDigits.any (· < (digits radix n).length) := by
    cases maxDigits with
    | none => simp
    | some k => simpa using hmax k rfl
  have hzero : ¬ (!allowZeroPrefix && (numeral radix n ++ text).head? = some '0' &&
      1 < (digits radix n).length) := by
    intro h
    simp only [Bool.and_eq_true, decide_eq_true_eq] at h
    obtain ⟨⟨-, hhead⟩, hlong⟩ := h
    cases hdigits : digits radix n with
    | nil => exact digits_ne_nil radix n hdigits
    | cons d ds =>
      have hd : d < radix := digits_lt hradix (n := n) (by rw [hdigits]; exact List.mem_cons_self)
      rw [numeral, hdigits] at hhead
      have hvalue := toDigit_digitChar hradix' hd
      rw [Option.some.inj hhead] at hvalue
      have hd0 : d = 0 := by
        unfold toDigit at hvalue
        obtain ⟨hvalue, -⟩ := Option.filter_eq_some_iff.mp hvalue
        exact (Option.some.inj hvalue).symm
      have hone : (digits radix n).length = 1 := head_digits (by rw [hdigits, hd0]; rfl)
      omega
  simp only [readNumber, readDigits_numeral hradix hradix' n htext, if_neg (digits_ne_nil radix n),
    if_neg hshort, if_neg hzero, ofDigits_digits, if_pos hn]

theorem readNumber_rest {radix : Nat} {maxDigits : Option Nat} {allowZeroPrefix : Bool}
    {bound n : Nat} {text rest : List Char}
    (h : readNumber radix maxDigits allowZeroPrefix bound text = some (n, rest)) :
    rest = (readDigits (toDigit radix) text).2 := by
  simp only [readNumber] at h
  split_ifs at h
  cases h
  rfl

theorem length_digits_octet (a : UInt8) : (digits 10 a.toNat).length ≤ 3 :=
  length_digits_le (by decide) (by decide) (by have := a.toNat_lt; omega)

theorem readNumber_octet (a : UInt8) {text : List Char} (htext : Stops (toDigit 10) text) :
    readNumber 10 (some 3) false 256 (numeral 10 a.toNat ++ text) = some (a.toNat, text) := by
  refine readNumber_numeral (by decide) (by decide) false a.toNat_lt ?_ htext
  rintro k ⟨⟩
  exact length_digits_octet a

theorem readOctet_first (a : UInt8) {text : List Char} (htext : Stops (toDigit 10) text) :
    readOctet 0 (numeral 10 a.toNat ++ text) = some (a, text) := by
  simp [readOctet, readSeparator, readNumber_octet a htext]

theorem readOctet_next (a : UInt8) (index : Nat) (hindex : 0 < index) {text : List Char}
    (htext : Stops (toDigit 10) text) :
    readOctet index ('.' :: (numeral 10 a.toNat ++ text)) = some (a, text) := by
  simp [readOctet, readSeparator, readGivenChar, hindex, readNumber_octet a htext]

theorem readIpv4Addr_display (ip : Ipv4Addr) {text : List Char} (htext : Stops (toDigit 10) text) :
    readIpv4Addr (ip.display ++ text) = some (ip, text) := by
  have hdot : toDigit 10 '.' = none := by decide
  have ha := readOctet_first ip.a (stops_cons hdot (numeral 10 ip.b.toNat ++
    '.' :: (numeral 10 ip.c.toNat ++ '.' :: (numeral 10 ip.d.toNat ++ text))))
  have hb := readOctet_next ip.b 1 (by decide) (stops_cons hdot
    (numeral 10 ip.c.toNat ++ '.' :: (numeral 10 ip.d.toNat ++ text)))
  have hc := readOctet_next ip.c 2 (by decide) (stops_cons hdot
    (numeral 10 ip.d.toNat ++ text))
  have hd := readOctet_next ip.d 3 (by decide) htext
  simp only [readIpv4Addr, Ipv4Addr.display, List.append_assoc, List.cons_append, ha, hb, hc, hd,
    Option.bind_eq_bind, Option.bind_some]

/-- What is not a number and a dot does not begin with an IPv4 address. -/
theorem readIpv4Addr_eq_none {text : List Char}
    (h : (readDigits (toDigit 10) text).2.head? ≠ some '.') : readIpv4Addr text = none := by
  unfold readIpv4Addr
  cases hfirst : readOctet 0 text with
  | none => rfl
  | some first =>
    obtain ⟨a, rest⟩ := first
    have hrest : rest = (readDigits (toDigit 10) text).2 := by
      obtain ⟨⟨n, rest'⟩, hnumber, heq⟩ := Option.map_eq_some_iff.mp hfirst
      cases heq
      exact readNumber_rest hnumber
    have hsecond : readOctet 1 rest = none := by
      rw [← hrest] at h
      cases rest with
      | nil => rfl
      | cons c rest =>
        have hc : c ≠ '.' := fun hc => h (by rw [hc]; rfl)
        simp [readOctet, readSeparator, readGivenChar, hc]
    simp [hsecond]

/-! ### IPv6 addresses -/

/-- No group of an IPv6 address can be read from the text. -/
def EndsGroups (text : List Char) : Prop :=
  Stops (toDigit 16) text ∧ text.head? ≠ some '.' ∧
    ∀ rest, text = ':' :: rest → Stops (toDigit 16) rest ∧ rest.head? ≠ some '.'

theorem readNumber_eq_none {radix : Nat} {text : List Char} (h : Stops (toDigit radix) text)
    (maxDigits : Option Nat) (allowZeroPrefix : Bool) (bound : Nat) :
    readNumber radix maxDigits allowZeroPrefix bound text = none := by
  simp [readNumber, readDigits_stops h]

/-- A hexadecimal number before a text without a dot does not begin with an IPv4 address. -/
theorem readIpv4Addr_append_eq_none {group text : List Char} (hgroup : '.' ∉ group)
    (htext : Stops (toDigit 16) text) (hdot : text.head? ≠ some '.') :
    readIpv4Addr (group ++ text) = none := by
  refine readIpv4Addr_eq_none ?_
  induction group with
  | nil =>
    rw [List.nil_append, readDigits_stops (htext.of_radix_le (by decide))]
    exact hdot
  | cons c group ih =>
    rw [List.mem_cons, not_or] at hgroup
    rw [List.cons_append, readDigits]
    split
    · simpa using fun h => hgroup.1 h.symm
    · exact ih hgroup.2

theorem dot_not_mem_numeral (n : Nat) : '.' ∉ numeral 16 n := by
  intro h
  obtain ⟨d, hd, hc⟩ := List.mem_map.mp h
  have hvalue := toDigit_digitChar (le_refl 16) (digits_lt (by decide) hd)
  have hnone : toDigit 16 '.' = none := by decide
  rw [hc, hnone] at hvalue
  cases hvalue

theorem readNumber_group (segment : UInt16) {text : List Char} (htext : Stops (toDigit 16) text) :
    readNumber 16 (some 4) true 65536 (numeral 16 segment.toNat ++ text) =
      some (segment.toNat, text) := by
  refine readNumber_numeral (by decide) (by decide) true segment.toNat_lt ?_ htext
  rintro k ⟨⟩
  exact length_digits_le (by decide) (by decide) (by have := segment.toNat_lt; omega)

theorem readGroups_ends {remaining index : Nat} {text : List Char} (h : EndsGroups text) :
    readGroups remaining index text = ([], false, text) := by
  obtain ⟨hstops, hdot, hcolon⟩ := h
  cases remaining with
  | zero => rfl
  | succ remaining =>
    have hipv4 : readSeparator ':' index readIpv4Addr text = none := by
      unfold readSeparator
      split
      · cases text with
        | nil => rfl
        | cons c rest =>
          by_cases hc : c = ':'
          · subst hc
            obtain ⟨hstops, hdot⟩ := hcolon rest rfl
            simpa [readGivenChar] using readIpv4Addr_append_eq_none (List.not_mem_nil) hstops hdot
          · simp [readGivenChar, hc]
      · exact readIpv4Addr_append_eq_none (List.not_mem_nil) hstops hdot
    have hgroup : readSeparator ':' index (readNumber 16 (some 4) true 65536) text = none := by
      unfold readSeparator
      split
      · cases text with
        | nil => rfl
        | cons c rest =>
          by_cases hc : c = ':'
          · subst hc
            simpa [readGivenChar] using readNumber_eq_none (hcolon rest rfl).1 _ _ _
          · simp [readGivenChar, hc]
      · exact readNumber_eq_none hstops _ _ _
    rw [readGroups, hipv4, hgroup, ite_self]

/-- The groups of a chunk, each after a colon. -/
def nextGroups (chunk : List UInt16) : List Char :=
  chunk.flatMap fun segment => ':' :: numeral 16 segment.toNat

theorem stops_nextGroups (chunk : List UInt16) {rest : List Char} (hrest : EndsGroups rest) :
    Stops (toDigit 16) (nextGroups chunk ++ rest) ∧ (nextGroups chunk ++ rest).head? ≠ some '.' := by
  cases chunk with
  | nil => exact ⟨hrest.1, hrest.2.1⟩
  | cons segment chunk => exact ⟨stops_cons (by decide) _, by simp [nextGroups]⟩

section Groups

variable {remaining index : Nat} {rest : List Char} (hrest : EndsGroups rest)
include hrest

/-- A group at the front of the text, with what stands before it. -/
theorem readGroups_group {segment : UInt16} {chunk : List UInt16} {text : List Char}
    (htext : ∀ {α : Type} (inner : List Char → Option (α × List Char)),
      readSeparator ':' index inner text =
        inner (numeral 16 segment.toNat ++ (nextGroups chunk ++ rest)))
    (hnext : readGroups remaining (index + 1) (nextGroups chunk ++ rest) = (chunk, false, rest)) :
    readGroups (remaining + 1) index text = (segment :: chunk, false, rest) := by
  obtain ⟨hstops, hdot⟩ := stops_nextGroups chunk hrest
  rw [readGroups, htext, htext, readNumber_group segment hstops,
    readIpv4Addr_append_eq_none (dot_not_mem_numeral _) hstops hdot, ite_self]
  simp only [hnext, UInt16.ofNat_toNat]

theorem readGroups_next {chunk : List UInt16} (hindex : 0 < index)
    (hlen : chunk.length ≤ remaining) :
    readGroups remaining index (nextGroups chunk ++ rest) = (chunk, false, rest) := by
  induction chunk generalizing remaining index with
  | nil => exact readGroups_ends hrest
  | cons segment chunk ih =>
    obtain ⟨remaining, rfl⟩ : ∃ k, remaining = k + 1 := ⟨remaining - 1, by simp at hlen; omega⟩
    refine readGroups_group hrest ?_ (ih (by omega) (by simpa using hlen))
    intro α inner
    simp [readSeparator, hindex, nextGroups, readGivenChar]

/-- The groups of a displayed chunk are read back. -/
theorem readGroups_displayChunk (chunk : List UInt16) (hlen : chunk.length ≤ remaining) :
    readGroups remaining 0 (displayChunk chunk ++ rest) = (chunk, false, rest) := by
  cases chunk with
  | nil => exact readGroups_ends hrest
  | cons segment chunk =>
    obtain ⟨remaining, rfl⟩ : ∃ k, remaining = k + 1 := ⟨remaining - 1, by simp at hlen; omega⟩
    refine readGroups_group hrest ?_ (readGroups_next hrest (by omega) (by simpa using hlen))
    intro α inner
    simp [readSeparator, displayChunk, nextGroups]

end Groups

/-- All segments in the span are zero. -/
def Span.Zero (segments : List UInt16) (span : Span) : Prop :=
  ∀ i, span.start ≤ i → i < span.start + span.len → segments[i]? = some 0

theorem findZeroes_zero (before : List UInt16) {after : List UInt16} {current longest : Span}
    (hcurrent : current.Zero (before ++ after))
    (hends : current.len = 0 ∨ current.start + current.len = before.length)
    (hlongest : longest.Zero (before ++ after)) :
    (findZeroes before.length current longest after).Zero (before ++ after) := by
  induction after generalizing before current longest with
  | nil => exact hlongest
  | cons segment after ih =>
    have hsplit : before ++ segment :: after = (before ++ [segment]) ++ after := by simp
    have hlength : before.length + 1 = (before ++ [segment]).length := by simp
    rw [findZeroes, hsplit, hlength]
    rw [hsplit] at hcurrent hlongest
    split
    · rename_i hzero
      generalize hstart₀ : (if current.len = 0 then before.length else current.start) = start
      have hstart : start + current.len = before.length ∧ (start = current.start ∨ current.len = 0) := by
        split at hstart₀ <;> omega
      have hnext : Span.Zero (before ++ [segment] ++ after) ⟨start, current.len + 1⟩ := by
        intro i hfrom hto
        dsimp only at hfrom hto
        by_cases hlast : i = before.length
        · simp [hlast, hzero]
        · exact hcurrent i (by omega) (by omega)
      refine ih _ hnext (.inr ?_) ?_
      · simp only [List.length_append, List.length_singleton]
        omega
      · split
        · exact hnext
        · exact hlongest
    · exact ih _ (fun i hfrom hto => absurd hto (by simp)) (.inl rfl) hlongest

/-- A list around a span of zeros. -/
theorem Span.Zero.split {segments : List UInt16} {span : Span} (h : span.Zero segments)
    (hlen : 0 < span.len) :
    span.start + span.len ≤ segments.length ∧
      segments.take span.start ++ List.replicate span.len 0 ++
        segments.drop (span.start + span.len) = segments := by
  have hbound : span.start + span.len ≤ segments.length := by
    have hlast := h (span.start + span.len - 1) (by omega) (by omega)
    have hlt := (List.getElem?_eq_some_iff.mp hlast).1
    omega
  have hzeros : (segments.drop span.start).take span.len = List.replicate span.len 0 := by
    refine List.ext_getElem? fun i => ?_
    rw [List.getElem?_take, List.getElem?_replicate, List.getElem?_drop]
    split
    · exact h (span.start + i) (by omega) (by omega)
    · rfl
  refine ⟨hbound, ?_⟩
  rw [← hzeros, List.append_assoc, ← List.drop_drop, List.take_append_drop, List.take_append_drop]

theorem segment_split (s : UInt16) : segment (s >>> 8).toUInt8 s.toUInt8 = s := by
  have hs := s.toNat_lt
  apply UInt16.toNat_inj.mp
  simp only [segment, UInt16.toNat_ofNat', UInt16.toNat_toUInt8, UInt16.toNat_shiftRight]
  have hshift : s.toNat >>> 8 = s.toNat / 256 := Nat.shiftRight_eq_div_pow s.toNat 8
  simp only [UInt16.reduceToNat, Nat.reduceMod, hshift]
  omega

/-- The groups of an IPv4-mapped address. -/
theorem readGroups_mapped (ipv4 : Ipv4Addr) {rest : List Char} (hrest : Stops (toDigit 10) rest) :
    readGroups 7 0 (numeral 16 0xffff ++ ':' :: (ipv4.display ++ rest)) =
      ([0xffff, segment ipv4.a ipv4.b, segment ipv4.c ipv4.d], true, rest) := by
  have hcolon : Stops (toDigit 16) (':' :: (ipv4.display ++ rest)) := stops_cons (by decide) _
  have hnone := readIpv4Addr_append_eq_none (dot_not_mem_numeral 0xffff) hcolon (by simp)
  have hsecond : readGroups 6 1 (':' :: (ipv4.display ++ rest)) =
      ([segment ipv4.a ipv4.b, segment ipv4.c ipv4.d], true, rest) := by
    simp [readGroups, readSeparator, readGivenChar, readIpv4Addr_display ipv4 hrest]
  have hfirst : readNumber 16 (some 4) true 65536 (numeral 16 0xffff ++ ':' :: (ipv4.display ++ rest)) =
      some (0xffff, ':' :: (ipv4.display ++ rest)) := readNumber_group 0xffff hcolon
  rw [readGroups]
  simp only [readSeparator, lt_irrefl, if_false, hnone, ite_self, hfirst, hsecond]
  rfl

theorem endsGroups_cons {c : Char} (h : toDigit 16 c = none) (hdot : c ≠ '.') (hcolon : c ≠ ':')
    (text : List Char) : EndsGroups (c :: text) := by
  refine ⟨stops_cons h text, by simpa using hdot, ?_⟩
  intro rest heq
  exact absurd (List.cons.inj heq).1 hcolon

theorem endsGroups_colons (text : List Char) : EndsGroups (':' :: ':' :: text) := by
  refine ⟨stops_cons (by decide) _, by simp, ?_⟩
  intro rest heq
  cases heq
  exact ⟨stops_cons (by decide) _, by simp⟩

/-- An address whose zeros are left out. -/
theorem readIpv6Addr_compressed (head tail : List UInt16) {k : Nat} (hk : 1 < k)
    (hlen : head.length + k + tail.length = 8) {rest : List Char} (hrest : EndsGroups rest) :
    readIpv6Addr (displayChunk head ++ ':' :: ':' :: (displayChunk tail ++ rest)) =
      some (.ofSegments (head ++ List.replicate k 0 ++ tail), rest) := by
  have hhead : head.length ≤ 8 := by omega
  have hfirst := readGroups_displayChunk (endsGroups_colons (displayChunk tail ++ rest)) head hhead
  have htail : tail.length ≤ 8 - (head.length + 1) := by omega
  have hsecond := readGroups_displayChunk hrest tail htail
  have hzeros : 8 - head.length - tail.length = k := by omega
  have hshort : head.length ≠ 8 := by omega
  simp only [readIpv6Addr, hfirst, if_neg hshort, readGivenChar, if_true, Option.bind_eq_bind,
    Option.bind_some, hsecond, hzeros]
  rfl

/-- An IPv4-mapped address. -/
theorem readIpv6Addr_mapped (ipv4 : Ipv4Addr) {rest : List Char} (hrest : Stops (toDigit 10) rest) :
    readIpv6Addr (':' :: ':' :: (numeral 16 0xffff ++ ':' :: (ipv4.display ++ rest))) =
      some (⟨0, 0, 0, 0, 0, 0xffff, segment ipv4.a ipv4.b, segment ipv4.c ipv4.d⟩, rest) := by
  have hgroups := readGroups_mapped ipv4 hrest
  simp only [readIpv6Addr, readGroups_ends (endsGroups_colons _), readGivenChar, List.length_nil]
  simp [hgroups, Ipv6Addr.ofSegments, List.replicate_succ]

/-- What is displayed of an IPv6 address is read back. -/
theorem readIpv6Addr_display (ip : Ipv6Addr) {rest : List Char} (hrest : EndsGroups rest) :
    readIpv6Addr (ip.display ++ rest) = some (ip, rest) := by
  unfold Ipv6Addr.display
  cases hmapped : ip.toIpv4Mapped with
  | some ipv4 =>
    have hread := readIpv6Addr_mapped ipv4 (hrest.1.of_radix_le (by decide))
    unfold Ipv6Addr.toIpv4Mapped at hmapped
    split at hmapped
    · rename_i hzero
      obtain ⟨h0, h1, h2, h3, h4, h5⟩ := hzero
      cases hmapped
      simp only [segment_split] at hread
      simp only [List.cons_append, List.append_assoc]
      rw [hread]
      cases ip
      simp_all
    · cases hmapped
  | none =>
    dsimp only
    split
    · rename_i hlong
      generalize hspan : findZeroes 0 ⟨0, 0⟩ ⟨0, 0⟩ ip.segments = span at hlong ⊢
      have hzero : span.Zero ip.segments := by
        have hempty : Span.Zero ip.segments ⟨0, 0⟩ := fun i _ hto => absurd hto (by simp)
        rw [← hspan]
        exact findZeroes_zero [] hempty (.inl rfl) hempty
      obtain ⟨hbound, hsplit⟩ := hzero.split (by omega)
      have hlength : ip.segments.length = 8 := rfl
      have hread := readIpv6Addr_compressed (ip.segments.take span.start)
        (ip.segments.drop (span.start + span.len)) hlong
        (by rw [List.length_take, List.length_drop]; omega) hrest
      rw [hsplit] at hread
      simp only [List.append_assoc, List.cons_append]
      exact hread
    · have hgroups := readGroups_displayChunk hrest ip.segments (le_refl 8)
      simp only [readIpv6Addr, hgroups]
      rfl

/-! ### Socket addresses -/

theorem readNumber_port (port : UInt16) :
    readNumber 10 none true 65536 (numeral 10 port.toNat) = some (port.toNat, []) := by
  have hstops : Stops (toDigit 10) [] := by simp [Stops]
  have hport : readNumber 10 none true 65536 (numeral 10 port.toNat ++ []) = some (port.toNat, []) :=
    readNumber_numeral (by decide) (by decide) true port.toNat_lt (by simp) hstops
  rwa [List.append_nil] at hport

theorem readPort_numeral (port : UInt16) :
    readPort (':' :: numeral 10 port.toNat) = some (port, []) := by
  simp [readPort, readGivenChar, readNumber_port]

theorem readScopeId_numeral (scopeId : UInt32) {text : List Char} (h : Stops (toDigit 10) text) :
    readScopeId ('%' :: (numeral 10 scopeId.toNat ++ text)) = some (scopeId, text) := by
  have hscope : readNumber 10 none true 4294967296 (numeral 10 scopeId.toNat ++ text) =
      some (scopeId.toNat, text) :=
    readNumber_numeral (by decide) (by decide) true scopeId.toNat_lt (by simp) h
  simp [readScopeId, readGivenChar, hscope]

/-- The address that the text of an address has. -/
def SocketAddr.displayed : SocketAddr → SocketAddr
  | .v4 ip port => .v4 ip port
  | .v6 ip port _ scopeId => .v6 ip port 0 scopeId

theorem readSocketAddrV6_display (ip : Ipv6Addr) (port : UInt16) (flowinfo scopeId : UInt32) :
    readSocketAddrV6 (SocketAddr.v6 ip port flowinfo scopeId).display =
      some (.v6 ip port 0 scopeId, []) := by
  have hend : ∀ text, EndsGroups (']' :: text) := endsGroups_cons (by decide) (by decide) (by decide)
  have hpercent : ∀ text, EndsGroups ('%' :: text) :=
    endsGroups_cons (by decide) (by decide) (by decide)
  simp only [SocketAddr.display]
  split
  · rename_i hzero
    have hip := readIpv6Addr_display ip (hend (':' :: numeral 10 port.toNat))
    simp [readSocketAddrV6, readGivenChar, hip, readScopeId, readPort_numeral, hzero]
  · have hip := readIpv6Addr_display ip (hpercent (numeral 10 scopeId.toNat ++
      ']' :: ':' :: numeral 10 port.toNat))
    have hstops : Stops (toDigit 10) (']' :: ':' :: numeral 10 port.toNat) :=
      stops_cons (by decide) _
    simp [readSocketAddrV6, readGivenChar, hip, readScopeId_numeral scopeId hstops,
      readPort_numeral]

/-- What is displayed of a socket address is read back, without the flow information. -/
theorem parseSocketAddr_display (address : SocketAddr) :
    parseSocketAddr (String.ofList address.display) = some address.displayed := by
  have hread : readSocketAddr address.display = some (address.displayed, []) := by
    cases address with
    | v4 ip port =>
      have hstops : Stops (toDigit 10) (':' :: numeral 10 port.toNat) := stops_cons (by decide) _
      have hip := readIpv4Addr_display ip hstops
      simp [readSocketAddr, readSocketAddrV4, SocketAddr.display, hip, readPort_numeral,
        SocketAddr.displayed]
    | v6 ip port flowinfo scopeId =>
      have hnone : readIpv4Addr (SocketAddr.v6 ip port flowinfo scopeId).display = none := by
        refine readIpv4Addr_eq_none ?_
        rw [SocketAddr.display, readDigits_stops (stops_cons (by decide) _)]
        simp
      rw [readSocketAddr, readSocketAddrV6_display]
      simp [readSocketAddrV4, hnone, SocketAddr.displayed]
  simp [parseSocketAddr, parseWith, hread]

end StateProxy.Net
