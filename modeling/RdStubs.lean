import RdStubs.CommandLine.Run
import RdStubs.Main
import RdStubs.Proofs.Declarations.Precedence
import RdStubs.Proofs.Declarations.Record
import RdStubs.Proofs.Declarations.Templates
import RdStubs.Proofs.Method.Candidates
import RdStubs.Proofs.Method.Parameters
import RdStubs.Proofs.Method.Percent
import RdStubs.Proofs.Reading.Independence
import RdStubs.Proofs.Reading.Parts
import RdStubs.Proofs.Reading.ReservedName
import RdStubs.Proofs.Stub.Partition
import RdStubs.Proofs.Update.Repetition
import RdStubs.Proofs.Method.Shown
import RdStubs.Proofs.Stub.Beginning
import RdStubs.Proofs.Reading.BodyBrace
import RdStubs.Proofs.Reading.NamelessLine
import RdStubs.Proofs.Session
import RdStubs.Proofs.Method.Signature
import RdStubs.Proofs.Declarations.Padding
