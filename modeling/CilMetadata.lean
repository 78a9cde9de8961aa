import CilMetadata.Body.MethodBody
import CilMetadata.Bytes.Cursor
import CilMetadata.LazyList.Scripted
import CilMetadata.Session.Image
import CilMetadata.Source.Scripted
import CilMetadata.Source.Transcribed
import CilMetadata.Proofs.Deferred.History
import CilMetadata.Proofs.LazyList.Refinement
import CilMetadata.Proofs.InterfaceImpl.Bound
import CilMetadata.Proofs.Source.Transcript
import CilMetadata.Proofs.InterfaceImpl.Equivalence
import CilMetadata.Proofs.InterfaceImpl.Alike
import CilMetadata.Proofs.InterfaceImpl.Observation
import CilMetadata.Proofs.ModuleImage.Columns
import CilMetadata.Proofs.ModuleImage.Entities
import CilMetadata.Proofs.Session.Requests
import CilMetadata.Proofs.Session.FirstRead
import CilMetadata.Proofs.Session.Waiting
import CilMetadata.Proofs.Bytes.Span
import CilMetadata.Proofs.Table.Access
import CilMetadata.Proofs.LazyList.Reads
import CilMetadata.Proofs.InterfaceImpl.Fetches
import CilMetadata.Proofs.ModuleImage.Attributes
import CilMetadata.Proofs.Session.Attributes
import CilMetadata.Proofs.CodedIndex.Width
import CilMetadata.Proofs.CodedIndex.Decoding
import CilMetadata.Proofs.InterfaceImpl.AttributeIndex
import CilMetadata.Proofs.Table.Layout
import CilMetadata.Proofs.Table.Walk
import CilMetadata.Proofs.Bytes.Form
import CilMetadata.Proofs.BlobHeap.Entries
import CilMetadata.Proofs.ModuleImage.ParentIndex
import CilMetadata.Proofs.ModuleImage.Acceptance
import CilMetadata.Proofs.ModuleImage.Existence
import CilMetadata.Proofs.ModuleImage.AttributeValues
import CilMetadata.Proofs.LazyList.Events
import CilMetadata.Proofs.LazyList.Account
import CilMetadata.Proofs.LazyList.ReaderCalls
import CilMetadata.Proofs.LazyList.Orphan
import CilMetadata.Proofs.InterfaceImpl.Interference
import CilMetadata.Proofs.InterfaceImpl.Orphan
import CilMetadata.Proofs.LazyList.Loading
import CilMetadata.Proofs.LazyList.Failures
import CilMetadata.Proofs.LazyList.Resumption
import CilMetadata.Proofs.LocalList.Numbering
import CilMetadata.Proofs.LocalList.Contents
import CilMetadata.Proofs.Bytes.Walk
import CilMetadata.Proofs.Deferred.Diagram
import CilMetadata.Proofs.CilBody.Parts
import CilMetadata.Proofs.Bytes.Integer
import CilMetadata.Proofs.LazyList.Guards
import CilMetadata.Proofs.Token.Packing
import CilMetadata.Proofs.TypeRegistry.LastWriter
import CilMetadata.Proofs.Immediate.Views
