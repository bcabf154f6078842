import TypeLanguage.Bytes.Cursor
import TypeLanguage.Bytes.Hex
import TypeLanguage.Bytes.Word
import TypeLanguage.Checksum.Crc32
import TypeLanguage.Checksum.Sha1
import TypeLanguage.Codec.Basic
import TypeLanguage.Codec.Decode
import TypeLanguage.Codec.Encode
import TypeLanguage.Codec.Flags
import TypeLanguage.Config
import TypeLanguage.Decimal.Shortest
import TypeLanguage.DecodeError
import TypeLanguage.EncodeError
import TypeLanguage.Gzip.Inflate
import TypeLanguage.Gzip.Member
import TypeLanguage.Inspect.Folder
import TypeLanguage.Inspect.Host
import TypeLanguage.Inspect.Options
import TypeLanguage.Inspect.Path
import TypeLanguage.Inspect.Tool
import TypeLanguage.Key.PublicKey
import TypeLanguage.Key.Ring
import TypeLanguage.Library
import TypeLanguage.Main
import TypeLanguage.Schema.Basic
import TypeLanguage.Schema.Definition
import TypeLanguage.Schema.Error
import TypeLanguage.Schema.Identifier
import TypeLanguage.Schema.Load
import TypeLanguage.Schema.Resolution
import TypeLanguage.Schema.Source
import TypeLanguage.Schema.TypeRef
import TypeLanguage.Text.Blank
import TypeLanguage.Text.Lossy
import TypeLanguage.Text.Numeral
import TypeLanguage.Text.Property
import TypeLanguage.Text.Quoted
import TypeLanguage.Text.Replace
import TypeLanguage.Toml.Config
import TypeLanguage.Toml.Document
import TypeLanguage.Toml.Moment
import TypeLanguage.Toml.Number
import TypeLanguage.Toml.Text
import TypeLanguage.Value.Basic
import TypeLanguage.Value.Display
import TypeLanguage.Wire.Primitive
import TypeLanguage.Wire.Shape
import TypeLanguage.Proofs.Passage
import TypeLanguage.Proofs.Primitive
import TypeLanguage.Proofs.FlagWords
import TypeLanguage.Proofs.Slot
import TypeLanguage.Proofs.Writing
import TypeLanguage.Proofs.RoundTrip
import TypeLanguage.Proofs.TypeSoundness
import TypeLanguage.Proofs.Reencode
import TypeLanguage.Proofs.Lockstep
import TypeLanguage.Proofs.Extension
import TypeLanguage.Proofs.Contents
import TypeLanguage.Proofs.Levels
import TypeLanguage.Proofs.Nesting
import TypeLanguage.Proofs.Packing
import TypeLanguage.Proofs.Packed
import TypeLanguage.Proofs.ParameterList
import TypeLanguage.Proofs.Loading
import TypeLanguage.Proofs.Acceptance
import TypeLanguage.Proofs.FixedLayout
import TypeLanguage.Proofs.References
import TypeLanguage.Proofs.Consistency
import TypeLanguage.Proofs.UnknownTag
import TypeLanguage.Proofs.Lexing
import TypeLanguage.Proofs.Printing
import TypeLanguage.Proofs.Reload
import TypeLanguage.Proofs.Growth
import TypeLanguage.Proofs.Numerals
import TypeLanguage.Proofs.TrustedKeys
import TypeLanguage.Proofs.KeyIdentity
import TypeLanguage.Proofs.Positional
import TypeLanguage.Proofs.Presence
import TypeLanguage.Proofs.Alignment
import TypeLanguage.Proofs.Counts
import TypeLanguage.Proofs.ConditionalWords
import TypeLanguage.Proofs.Searching
import TypeLanguage.Proofs.Words
import TypeLanguage.Proofs.Outline
import TypeLanguage.Proofs.ShapeRoundTrip
import TypeLanguage.Proofs.LoadOrder
import TypeLanguage.Proofs.TableOrder
import TypeLanguage.Proofs.TextLayout
import TypeLanguage.Proofs.CyclicRedundancy
import TypeLanguage.Proofs.InferredIdentifier
import TypeLanguage.Proofs.HexText
import TypeLanguage.Proofs.GenericReferences
import TypeLanguage.Proofs.Sections
import TypeLanguage.Proofs.CursorRuns
import TypeLanguage.Proofs.ReferenceText
import TypeLanguage.Proofs.LeafText
import TypeLanguage.Proofs.PrintedLines
import TypeLanguage.Proofs.CommandArguments
import TypeLanguage.Proofs.DecodeCommand
